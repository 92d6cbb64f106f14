import AudioAtoms.Proofs.Checked.Basic
import AudioAtoms.Stream.Slice
import AudioAtoms.Stream.Window

/-!
# Checked streams

A stream in memory is a buffer with an index into it, and a window is a pair of counters. Here both
answer requests by checked operations. The index never leaves the buffer and a window never uses
more than its size, so no operation faults, and the answers are those of the slice behind the index
and of the plain window.
-/
namespace AudioAtoms

/-- Octets in memory, and how many of them were consumed. -/
structure Memory where
  octets : Bytes
  pos : Nat

namespace Memory
open Checked

def answer (m : Memory) : (q : Request false) → Checked (q.Answer × Memory)
  | .exactly n => do
    if (← sub m.octets.length m.pos) < n then return (.error .underrun, m)
    let stop ← add 64 m.pos n
    return (.ok (← part m.octets m.pos stop), { m with pos := stop })
  | .upTo n => do
    let size := min n (← sub m.octets.length m.pos)
    range 0 size n
    let stop ← add 64 m.pos size
    return (.ok (← part m.octets m.pos stop), { m with pos := stop })
  | .skip n => do
    if (← sub m.octets.length m.pos) < n then return (.error .underrun, m)
    return (.ok (), { m with pos := ← add 64 m.pos n })
  | .position => return (m.pos, m)

structure Valid (m : Memory) : Prop where
  pos : m.pos ≤ m.octets.length
  size : m.octets.length < 2 ^ 63

def slice (m : Memory) : Slice := ⟨m.pos, m.octets.drop m.pos⟩

theorem slice_rest_length (m : Memory) : m.slice.rest.length = m.octets.length - m.pos :=
  List.length_drop

theorem slice_advance (m : Memory) (n : Nat) :
    m.slice.advance n = slice { m with pos := m.pos + n } := by
  rw [Slice.advance, slice, slice, List.drop_drop]

/-- Moving the index within the buffer keeps it valid. -/
theorem Valid.advance {m : Memory} (hm : m.Valid) {n : Nat} (hn : n ≤ m.slice.rest.length) :
    Valid { m with pos := m.pos + n } := by
  have hlen := m.slice_rest_length
  have hpos := hm.pos
  exact ⟨by dsimp only; omega, hm.size⟩

theorem Valid.add_ok {m : Memory} (hm : m.Valid) {n : Nat} (hn : n ≤ m.slice.rest.length) :
    add 64 m.pos n = .ok (m.pos + n) := by
  have hlen := m.slice_rest_length
  have hpos := hm.pos
  have hsize := hm.size
  exact Checked.add_ok (by omega)

theorem Valid.part_ok {m : Memory} (hm : m.Valid) {n : Nat} (hn : n ≤ m.slice.rest.length) :
    part m.octets m.pos (m.pos + n) = .ok (m.slice.rest.take n) := by
  have hlen := m.slice_rest_length
  have hpos := hm.pos
  rw [Checked.part_ok (by omega) (by omega), Nat.add_sub_cancel_left]
  rfl

/-- Memory answers as the slice behind its index does, without a fault. The answer is proper. -/
theorem answer_eq {m : Memory} (hm : m.Valid) (q : Request false) :
    ∃ m' : Memory, m.answer q = .ok ((ByteStream.answer q m.slice).1, m') ∧
      m'.slice = (ByteStream.answer q m.slice).2 ∧ m'.Valid ∧
      q.Proper (ByteStream.answer q m.slice).1 := by
  have hleft : sub m.octets.length m.pos = .ok m.slice.rest.length := by
    rw [Checked.sub_ok hm.pos, slice_rest_length]
  cases q with
  | exactly n =>
    rw [Slice.answer_exactly, answer, hleft, ok_bind]
    by_cases h : n ≤ m.slice.rest.length
    · rw [if_pos h, if_neg (Nat.not_lt.2 h), hm.add_ok h, ok_bind, hm.part_ok h]
      refine ⟨_, rfl, (m.slice_advance n).symm, hm.advance h, ?_⟩
      intro bs hbs
      rw [← Except.ok.inj hbs, List.length_take, Nat.min_eq_left h]
    · rw [if_neg h, if_pos (Nat.lt_of_not_le h)]
      exact ⟨m, rfl, rfl, hm, nofun⟩
  | upTo n =>
    have h : min n m.slice.rest.length ≤ m.slice.rest.length := Nat.min_le_right _ _
    rw [Slice.answer_upTo, answer, hleft, ok_bind]
    dsimp only
    rw [range_ok (Nat.zero_le _) (Nat.min_le_left _ _), ok_bind, hm.add_ok h, ok_bind,
      hm.part_ok h, ← List.take_eq_take_min]
    refine ⟨_, rfl, (m.slice_advance _).symm, hm.advance h, ?_⟩
    intro bs hbs
    rw [← Except.ok.inj hbs]
    exact List.length_take_le _ _
  | skip n =>
    rw [Slice.answer_skip, answer, hleft, ok_bind]
    by_cases h : n ≤ m.slice.rest.length
    · rw [if_pos h, if_neg (Nat.not_lt.2 h), hm.add_ok h]
      exact ⟨_, rfl, (m.slice_advance n).symm, hm.advance h, trivial⟩
    · rw [if_neg h, if_pos (Nat.lt_of_not_le h)]
      exact ⟨m, rfl, rfl, hm, trivial⟩
  | position =>
    have hpos := hm.pos
    have hsize := hm.size
    exact ⟨m, rfl, rfl, hm, show m.pos < 2 ^ 63 by omega⟩
  | remaining h => cases h

end Memory

def Scan.runChecked {α : Type} : Scan false α → Memory → Checked α
  | done a, _ => .ok a
  | ask q next, m => do
    let (r, m) ← m.answer q
    (next r).runChecked m
  | note _ rest, m => rest.runChecked m

/-- A scan in parallel with another one runs on memory without a fault. -/
theorem Scan.Parallel.runChecked {α β : Type} {R : α → β → Prop} {p : Scan false α}
    {q : Scan false β} (hp : p.Parallel R q) {m : Memory} (hm : m.Valid) :
    ∃ a, p.runChecked m = .ok a ∧ R a (q.run m.slice).1 := by
  induction hp generalizing m with
  | done a b h => exact ⟨a, rfl, h⟩
  | note n p q _ ih => exact ih hm
  | ask r next next' _ ih =>
    obtain ⟨m', hanswer, hslice, hm', hproper⟩ := Memory.answer_eq hm r
    obtain ⟨a, ha, hR⟩ := ih _ hproper hm'
    rw [Scan.runChecked, hanswer, Checked.ok_bind, Scan.run_ask, ← hslice]
    exact ⟨a, ha, hR⟩

namespace Window
open Checked Guarded
variable {ε : Type} {bounded inner : Bool}

def ask (q : Request inner) : Guarded ε inner q.Answer :=
  ExceptT.mk (.ask q fun r => .done (.ok r))

def leftChecked (w : Window) : Guarded ε inner Nat := check (sub w.size w.used)

def chargeChecked (w : Window) (n : Nat) : Guarded ε inner Window := do
  return { w with used := ← check (add 64 w.used n) }

def answerChecked (w : Window) : (q : Request bounded) → Guarded ε inner (q.Answer × Window)
  | .exactly n => do
    if (← w.leftChecked) < n then return (.error .outOfBounds, w.refuse)
    let charged ← w.chargeChecked n
    return (← ask (.exactly n), charged)
  | .upTo n => do
    let size := min (← w.leftChecked) n
    check (range 0 size n)
    match ← ask (.upTo size) with
    | .ok bs => return (.ok bs, ← w.chargeChecked bs.length)
    | .error e => return (.error e, w)
  | .skip n => do
    if (← w.leftChecked) < n then return (.error .outOfBounds, w.refuse)
    let charged ← w.chargeChecked n
    return (← ask (.skip n), charged)
  | .position => return (← ask .position, w)
  | .remaining _ => return (← w.leftChecked, w)

structure Valid (w : Window) : Prop where
  used : w.used ≤ w.size
  size : w.size < 2 ^ 64

theorem valid_ofSize {n : Nat} (hn : n < 2 ^ 64) : (ofSize n).Valid := ⟨Nat.zero_le _, hn⟩

theorem Valid.charge {w : Window} (hw : w.Valid) {n : Nat} (hn : n ≤ w.left) :
    (w.charge n).Valid := by
  have hused := hw.used
  unfold left at hn
  exact ⟨by dsimp only [Window.charge]; omega, hw.size⟩

theorem Valid.leftChecked_eq {w : Window} (hw : w.Valid) :
    (w.leftChecked : Guarded ε inner Nat) = pure w.left := by
  rw [leftChecked, Checked.sub_ok hw.used]
  rfl

theorem Valid.chargeChecked_eq {w : Window} (hw : w.Valid) {n : Nat} (hn : n ≤ w.left) :
    (w.chargeChecked n : Guarded ε inner Window) = pure (w.charge n) := by
  have hused := hw.used
  have hsize := hw.size
  unfold left at hn
  rw [chargeChecked, Checked.add_ok (by omega)]
  rfl

/-- A checked window answers as the plain one does, without a fault. The answer is proper. -/
theorem Valid.answerChecked {w : Window} (hw : w.Valid) (q : Request bounded) :
    (w.answerChecked q : Guarded ε inner _).run.Parallel
      (fun r s => r = .ok s ∧ q.Proper s.1 ∧ s.2.Valid) (w.answer q) := by
  cases q with
  | exactly n =>
    rw [Window.answerChecked, hw.leftChecked_eq, pure_bind, Window.answer]
    by_cases h : w.left < n
    · rw [if_pos h, if_pos h]
      exact .done _ _ ⟨rfl, fun _ h => (by cases h), hw.used, hw.size⟩
    · rw [if_neg h, if_neg h, hw.chargeChecked_eq (Nat.le_of_not_lt h), pure_bind]
      exact .ask _ _ _ fun r hr => .done _ _ ⟨rfl, hr, hw.charge (Nat.le_of_not_lt h)⟩
  | upTo n =>
    rw [Window.answerChecked, hw.leftChecked_eq, pure_bind, Window.answer]
    dsimp only
    rw [range_ok (Nat.zero_le _) (Nat.min_le_right _ _)]
    refine .ask _ _ _ ?_
    rintro (e | bs) hr
    · exact .done _ _ ⟨rfl, fun _ h => (by cases h), hw⟩
    · have hbs : bs.length ≤ min w.left n := hr bs rfl
      have hleft : bs.length ≤ w.left := Nat.le_trans hbs (Nat.min_le_left _ _)
      change Scan.Parallel _ (w.chargeChecked bs.length >>= fun v =>
        (pure (.ok bs, v) : Guarded ε inner (Except StreamError Bytes × Window))).run _
      rw [hw.chargeChecked_eq hleft, pure_bind]
      exact .done _ _ ⟨rfl, fun _ h => Except.ok.inj h ▸ Nat.le_trans hbs (Nat.min_le_right _ _),
        hw.charge hleft⟩
  | skip n =>
    rw [Window.answerChecked, hw.leftChecked_eq, pure_bind, Window.answer]
    by_cases h : w.left < n
    · rw [if_pos h, if_pos h]
      exact .done _ _ ⟨rfl, trivial, hw.used, hw.size⟩
    · rw [if_neg h, if_neg h, hw.chargeChecked_eq (Nat.le_of_not_lt h), pure_bind]
      exact .ask _ _ _ fun r hr => .done _ _ ⟨rfl, trivial, hw.charge (Nat.le_of_not_lt h)⟩
  | position => exact .ask _ _ _ fun r hr => .done _ _ ⟨rfl, hr, hw⟩
  | remaining h =>
    rw [Window.answerChecked, hw.leftChecked_eq, pure_bind]
    have hsize := hw.size
    have hleft : w.left ≤ w.size := Nat.sub_le _ _
    exact .done _ _ ⟨rfl, show w.left < 2 ^ 64 by omega, hw⟩

end Window

def Scan.withinChecked {ε : Type} {bounded inner : Bool} {α : Type} :
    Scan bounded α → Window → Guarded ε inner (α × Window)
  | done a, w => return (a, w)
  | ask q next, w => do
    let (r, w) ← w.answerChecked q
    (next r).withinChecked w
  | note m rest, w => do
    Guarded.note m
    rest.withinChecked w

/-- Scans in parallel stay so in a window. -/
theorem Scan.Parallel.within {ε : Type} {bounded inner : Bool} {α β : Type} {R : α → β → Prop}
    {p : Scan bounded α} {q : Scan bounded β} (hp : p.Parallel R q) {w : Window} (hw : w.Valid) :
    (p.withinChecked w : Guarded ε inner _).run.Parallel
      (fun r s => ∃ a, r = .ok (a, s.2) ∧ R a s.1 ∧ s.2.Valid) (q.within w) := by
  induction hp generalizing w with
  | done a b h => exact .done _ _ ⟨a, rfl, h, hw⟩
  | note m p q _ ih => exact .note m _ _ (ih hw)
  | ask r next next' _ ih =>
    rw [Scan.withinChecked, Scan.within, Guarded.run_bind]
    refine (hw.answerChecked r).bind ?_
    rintro _ ⟨x, v⟩ ⟨rfl, hx, hv⟩
    exact ih x hx hv

end AudioAtoms
