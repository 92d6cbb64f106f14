import AudioAtoms.Proofs.ArenaLayout
import AudioAtoms.Proofs.Checked.Basic

/-!
# The checked arena

In memory the arena is one buffer with a mark between the values kept and the spare part. Values are
kept by writing into the buffer and moving the mark. No write misses the buffer and the mark never
passes its end, so the buffer keeps its size for good.
-/
namespace AudioAtoms
open Checked

theorem Checked.part_append_left (as bs : Bytes) : part (as ++ bs) 0 as.length = .ok as := by
  rw [part_ok (Nat.zero_le _) (by simp), Nat.sub_zero, List.drop_zero, List.take_left]

theorem Bytes.take_length_untilNul (bs : Bytes) : bs.take bs.untilNul.length = bs.untilNul :=
  (List.prefix_iff_eq_take.1 (List.takeWhile_prefix _)).symm

def Text.decodeChecked (bs : Bytes) : Checked String := do
  return Text.decode (← part bs 0 bs.untilNul.length)

theorem Text.decodeChecked_eq (bs : Bytes) :
    Text.decodeChecked bs = .ok (Text.decode bs.untilNul) := by
  rw [decodeChecked, part_ok (Nat.zero_le _) bs.length_untilNul_le, Nat.sub_zero, List.drop_zero,
    Bytes.take_length_untilNul]
  rfl

namespace Arena

def ofBuffer (bs : Bytes) (mark : Nat) : Checked Arena := do
  return ⟨← part bs 0 mark, ← part bs mark bs.length⟩

def spareChecked (a : Arena) : Checked Bytes := part a.buffer a.used a.buffer.length

def valueSizeChecked (spare : Bytes) (filled maxSize : Nat) : Checked Nat := do
  let front ← part spare 0 (min filled spare.length)
  return min (← add 64 front.untilNul.length 1) maxSize

/-- Ends the value of the given size behind the mark by a zero octet, and moves the mark. -/
def endValue (bs : Bytes) (mark size : Nat) : Checked Arena := do
  let bs ← put bs (← sub (← add 64 mark size) 1) 0
  ofBuffer bs (← add 64 mark size)

def commitChecked (a : Arena) (filled maxSize : Nat) :
    Checked (Except Refusal (String × Arena)) := do
  if filled = 0 ∨ maxSize = 0 then return .error .nothing
  let spare ← a.spareChecked
  let size ← valueSizeChecked spare filled maxSize
  if spare.length < size then return .error (.noRoom size)
  let text ← part spare 0 (← sub size 1)
  return .ok (Text.decode text, ← endValue a.buffer a.used size)

def peekChecked (a : Arena) (filled maxSize : Nat) : Checked (Option String) := do
  if filled = 0 ∨ maxSize = 0 then return none
  let spare ← a.spareChecked
  let size := min (← valueSizeChecked spare filled maxSize) (← add 64 spare.length 1)
  return some (Text.decode (← part spare 0 (← sub size 1)))

def allocChecked (a : Arena) (text : String) : Checked (Except Refusal (String × Arena)) := do
  let size ← add 64 (Text.encode text).length 1
  if (← sub a.buffer.length a.used) < size then return .error (.noRoom size)
  let bs ← copy a.buffer a.used (← sub (← add 64 a.used size) 1) (Text.encode text)
  return .ok (text, ← endValue bs a.used size)

variable {a : Arena}

theorem spareChecked_eq (a : Arena) : a.spareChecked = .ok a.spare := by
  rw [spareChecked, part_ok (by rw [length_buffer]; omega) (Nat.le_refl _), length_buffer,
    Nat.add_sub_cancel_left, buffer]
  unfold used remaining
  rw [List.drop_left, List.take_length]

theorem ofBuffer_append (as bs : Bytes) : ofBuffer (as ++ bs) as.length = .ok ⟨as, bs⟩ := by
  rw [ofBuffer, part_append_left, ok_bind,
    part_ok (by simp) (Nat.le_refl _), List.drop_left, List.length_append, Nat.add_sub_cancel_left,
    List.take_length]
  rfl

theorem valueSizeChecked_eq (ha : a.Sized) (filled maxSize : Nat) :
    valueSizeChecked a.spare filled maxSize = .ok (a.valueSize filled maxSize) := by
  have hfront := Bytes.length_untilNul_le (a.spare.take filled)
  have hspare : (a.spare.take filled).length ≤ a.spare.length := List.length_take_le' _ _
  unfold Sized remaining at ha
  rw [valueSizeChecked, part_ok (Nat.zero_le _) (Nat.min_le_right _ _), Nat.sub_zero,
    List.drop_zero, ← List.take_eq_take_min, ok_bind, add_ok (by omega)]
  rfl

theorem valueSize_pos {filled maxSize : Nat} (hm : maxSize ≠ 0) :
    0 < a.valueSize filled maxSize := by
  unfold valueSize
  omega

/-- The index behind a value that fits, and that of its zero octet. -/
theorem Sized.index_ok (ha : a.Sized) {n : Nat} (hn : n < a.remaining) :
    (add 64 a.used (n + 1) >>= fun stop => sub stop 1) = .ok (a.used + n) := by
  unfold Sized at ha
  rw [Checked.add_ok (by omega), ok_bind, sub_ok (by omega)]
  rfl

theorem endValue_eq (ha : a.Sized) {n : Nat} (hn : n < a.remaining) :
    endValue a.buffer a.used (n + 1) =
      .ok ⟨a.kept ++ a.spare.take n ++ [0], a.spare.drop (n + 1)⟩ := by
  have hindex := ha.index_ok hn
  unfold Sized at ha
  have hset : a.buffer.set (a.used + n) 0 =
      a.kept ++ a.spare.take n ++ [0] ++ a.spare.drop (n + 1) := by
    rw [List.set_eq_take_append_cons_drop, if_pos (by rw [length_buffer]; omega), buffer,
      Nat.add_assoc]
    unfold used
    rw [List.take_length_add_append, List.drop_length_add_append, List.append_assoc _ [0]]
    rfl
  have hmark : a.used + (n + 1) = (a.kept ++ a.spare.take n ++ [(0 : UInt8)]).length := by
    unfold remaining at hn
    unfold used
    simp only [List.length_append, List.length_take, List.length_singleton]
    omega
  have hin : a.used + n < a.buffer.length := by
    rw [length_buffer]
    exact Nat.add_lt_add_left hn _
  rw [endValue, ← bind_assoc, hindex, ok_bind, put_ok hin, ok_bind, Checked.add_ok (by omega),
    ok_bind, hset, hmark, ofBuffer_append]

theorem commitChecked_eq (ha : a.Sized) (filled maxSize : Nat) :
    a.commitChecked filled maxSize = .ok (a.commit filled maxSize) := by
  unfold commitChecked commit
  by_cases hnone : filled = 0 ∨ maxSize = 0
  · rw [if_pos hnone, if_pos hnone]
    rfl
  · rw [if_neg hnone, if_neg hnone, spareChecked_eq, ok_bind, valueSizeChecked_eq ha, ok_bind]
    have hpos : 0 < a.valueSize filled maxSize := valueSize_pos fun h => hnone (.inr h)
    dsimp only
    generalize a.valueSize filled maxSize = size at hpos
    obtain ⟨n, rfl⟩ : ∃ n, size = n + 1 := ⟨size - 1, by omega⟩
    by_cases hroom : a.spare.length < n + 1
    · rw [if_pos hroom, if_pos (show a.remaining < n + 1 from hroom)]
      rfl
    · have hn : n < a.remaining := Nat.lt_of_succ_le (Nat.le_of_not_lt hroom)
      rw [if_neg hroom, if_neg (show ¬ a.remaining < n + 1 from hroom),
        sub_ok (Nat.le_add_left _ _), ok_bind, Nat.add_sub_cancel,
        part_ok (Nat.zero_le _) (Nat.le_of_lt hn), ok_bind, endValue_eq ha hn]
      rfl

theorem peekChecked_eq (ha : a.Sized) (filled maxSize : Nat) :
    a.peekChecked filled maxSize = .ok (a.peek filled maxSize) := by
  unfold peekChecked peek
  by_cases hnone : filled = 0 ∨ maxSize = 0
  · rw [if_pos hnone, if_pos hnone]
    rfl
  · have hpos : 0 < a.valueSize filled maxSize := valueSize_pos fun h => hnone (.inr h)
    have hspare : a.spare.length + 1 < 2 ^ 64 := by
      unfold Sized remaining at ha
      omega
    rw [if_neg hnone, if_neg hnone, spareChecked_eq, ok_bind, valueSizeChecked_eq ha, ok_bind,
      Checked.add_ok hspare, ok_bind]
    dsimp only
    rw [sub_ok (by omega), ok_bind, part_ok (Nat.zero_le _) (by omega)]
    rfl

theorem allocChecked_eq (ha : a.Sized) {text : String} (ht : (Text.encode text).length < 2 ^ 63) :
    a.allocChecked text = .ok (a.alloc text) := by
  unfold allocChecked alloc
  generalize htext : Text.encode text = bs at ht
  have hused : a.used ≤ a.buffer.length := by
    rw [length_buffer]
    exact Nat.le_add_right _ _
  have hleft : a.buffer.length - a.used = a.remaining := by
    rw [length_buffer, Nat.add_sub_cancel_left]
  rw [Checked.add_ok (by omega), ok_bind, sub_ok hused, ok_bind, hleft]
  dsimp only
  by_cases hroom : a.remaining < bs.length + 1
  · rw [if_pos hroom, if_pos hroom]
    rfl
  · have hn : bs.length < a.remaining := Nat.lt_of_succ_le (Nat.le_of_not_lt hroom)
    have hindex := ha.index_ok hn
    have hcopy : copy a.buffer a.used (a.used + bs.length) bs =
        .ok (buffer ⟨a.kept, bs ++ a.spare.drop bs.length⟩) := by
      rw [copy_ok (Nat.le_add_right _ _) (by rw [length_buffer]; omega) (by omega), buffer, buffer]
      unfold used
      rw [List.take_left, List.drop_length_add_append, List.append_assoc]
    have hremaining : remaining ⟨a.kept, bs ++ a.spare.drop bs.length⟩ = a.remaining := by
      unfold remaining at hn ⊢
      rw [List.length_append, List.length_drop]
      omega
    have hend : endValue (buffer ⟨a.kept, bs ++ a.spare.drop bs.length⟩) a.used (bs.length + 1) =
        .ok ⟨a.kept ++ bs ++ [0], a.spare.drop (bs.length + 1)⟩ := by
      have hsized : Sized ⟨a.kept, bs ++ a.spare.drop bs.length⟩ := by
        rw [Sized, hremaining]
        exact ha
      have h := endValue_eq hsized (hremaining ▸ hn)
      rw [List.take_left, List.drop_length_add_append, List.drop_drop] at h
      exact h
    rw [if_neg hroom, if_neg hroom, ← bind_assoc, hindex, ok_bind, hcopy, ok_bind, hend]
    rfl

/-- Moving the mark keeps the size of the arena. -/
theorem Sized.of_takes (ha : a.Sized) {size : Nat} {a' : Arena} (h : a.Takes size a') :
    a'.Sized := by
  have hremaining := h.remaining
  unfold Sized at *
  rw [h.used]
  omega

theorem Sized.commit (ha : a.Sized) {filled maxSize : Nat} {text : String} {a' : Arena}
    (h : a.commit filled maxSize = .ok (text, a')) : a'.Sized := by
  obtain ⟨-, hroom, -, rfl⟩ := commit_eq_ok h
  exact ha.of_takes (takes_append hroom)

theorem Sized.alloc (ha : a.Sized) {text text' : String} {a' : Arena}
    (h : a.alloc text = .ok (text', a')) : a'.Sized := by
  obtain ⟨-, hroom, rfl⟩ := alloc_eq_ok h
  exact ha.of_takes (takes_append hroom)

theorem Sized.write (ha : a.Sized) (bs : Bytes) : (a.write bs).Sized :=
  ha.of_takes (a.takes_write bs)

end Arena

end AudioAtoms
