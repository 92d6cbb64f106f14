import AudioAtoms.Proofs.Truncation

/-!
# The octets that a run depends on

A slice moves forward only. An answer that moves it shows the octets moved over and no others, and
a request that fails shows only that there are too few octets, which holds of a shorter slice too.
So a run is determined by the octets in front of the place where it ends, as long as the slice does
not get longer.
-/
namespace AudioAtoms

namespace Slice
variable {bounded : Bool} {s t : Slice} {stop : Nat}

theorem size_advance (s : Slice) {n : Nat} (h : n ≤ s.rest.length) : (s.advance n).size = s.size := by
  simp only [size, advance, List.length_drop]
  omega

theorem pos_le_answer (q : Request bounded) (s : Slice) : s.pos ≤ (ByteStream.answer q s).2.pos := by
  cases q with
  | exactly n =>
    rw [answer_exactly]
    split
    · exact Nat.le_add_right _ _
    · exact Nat.le_refl _
  | upTo n =>
    rw [answer_upTo]
    exact Nat.le_add_right _ _
  | skip n =>
    rw [answer_skip]
    split
    · exact Nat.le_add_right _ _
    · exact Nat.le_refl _
  | position | remaining _ => exact Nat.le_refl _

theorem pos_le_run {α : Type} (p : Scan bounded α) (s : Slice) : s.pos ≤ (p.run s).2.pos := by
  induction p generalizing s with
  | done a => exact Nat.le_refl _
  | ask q next ih => exact Nat.le_trans (pos_le_answer q s) (ih _ _)
  | note m rest ih => exact ih s

/-- Another slice at the same position has the octets before `stop` too, and ends no later. -/
structure Agrees (s t : Slice) (stop : Nat) : Prop where
  pos : t.pos = s.pos
  octets : t.rest.take (stop - s.pos) = s.rest.take (stop - s.pos)
  stop_le : stop ≤ t.size
  size_le : t.size ≤ s.size

namespace Agrees

theorem length_le (h : s.Agrees t stop) : t.rest.length ≤ s.rest.length := by
  have hsize := h.size_le
  simp only [size, h.pos] at hsize
  omega

theorem le_length (h : s.Agrees t stop) {n : Nat} (hn : s.pos + n ≤ stop) : n ≤ t.rest.length := by
  have hstop := h.stop_le
  simp only [size, h.pos] at hstop
  omega

theorem take_eq (h : s.Agrees t stop) {n : Nat} (hn : s.pos + n ≤ stop) :
    t.rest.take n = s.rest.take n := by
  have hmin : n = min n (stop - s.pos) := by omega
  rw [hmin, ← List.take_take, h.octets, List.take_take]

theorem advance (h : s.Agrees t stop) {n : Nat} (hn : s.pos + n ≤ stop) :
    (s.advance n).Agrees (t.advance n) stop := by
  have ht := h.le_length hn
  have hs := Nat.le_trans ht h.length_le
  refine ⟨?_, ?_, ?_, ?_⟩
  · simp only [Slice.advance, h.pos]
  · simp only [Slice.advance]
    rw [← Nat.sub_sub, ← List.drop_take, h.octets, List.drop_take]
  · rw [size_advance t ht]
    exact h.stop_le
  · rw [size_advance t ht, size_advance s hs]
    exact h.size_le

/-- A request that ends before `stop` is answered alike. -/
theorem answer (h : s.Agrees t stop) (q : Request false)
    (hq : (ByteStream.answer q s).2.pos ≤ stop) :
    (ByteStream.answer q t).1 = (ByteStream.answer q s).1 ∧
      (ByteStream.answer q s).2.Agrees (ByteStream.answer q t).2 stop := by
  cases q with
  | exactly n =>
    rw [answer_exactly] at hq ⊢
    rw [answer_exactly]
    by_cases hn : n ≤ s.rest.length
    · rw [if_pos hn] at hq ⊢
      rw [if_pos (h.le_length hq), h.take_eq hq]
      exact ⟨rfl, h.advance hq⟩
    · rw [if_neg hn, if_neg (fun ht => hn (Nat.le_trans ht h.length_le))]
      exact ⟨rfl, h⟩
  | upTo n =>
    rw [answer_upTo] at hq ⊢
    rw [answer_upTo]
    have hmin : min n t.rest.length = min n s.rest.length := by
      have := h.le_length hq
      have := h.length_le
      omega
    rw [hmin, List.take_eq_take_min, hmin, h.take_eq hq, ← List.take_eq_take_min]
    exact ⟨rfl, h.advance hq⟩
  | skip n =>
    rw [answer_skip] at hq ⊢
    rw [answer_skip]
    by_cases hn : n ≤ s.rest.length
    · rw [if_pos hn] at hq ⊢
      rw [if_pos (h.le_length hq)]
      exact ⟨rfl, h.advance hq⟩
    · rw [if_neg hn, if_neg (fun ht => hn (Nat.le_trans ht h.length_le))]
      exact ⟨rfl, h⟩
  | position => exact ⟨h.pos, h⟩
  | remaining hb => cases hb

/-- A run that ends before `stop` gives the same result and ends at the same place. -/
theorem run {α : Type} {p : Scan false α} (h : s.Agrees t stop) (hp : (p.run s).2.pos ≤ stop) :
    (p.run t).1 = (p.run s).1 ∧ (p.run t).2.pos = (p.run s).2.pos := by
  induction p generalizing s t with
  | done a => exact ⟨rfl, h.pos⟩
  | ask q next ih =>
    have hfirst := Nat.le_trans (pos_le_run (next (ByteStream.answer q s).1) _) hp
    obtain ⟨hanswer, hnext⟩ := h.answer q hfirst
    rw [Scan.run_ask, Scan.run_ask, hanswer]
    exact ih _ hnext hp
  | note m rest ih => exact ih h hp

end Agrees

end Slice

namespace Walk

/-- The outcome of a walk, what it collects and where it ends depend on the octets that it moved
over only: octets behind them may be others or be missing. -/
theorem exec_eq_of_take_eq (o : Options) (budget : Nat) (c : Collected) (data data' : Bytes) :
    let run := (walk o budget).exec c (Slice.ofBytes data)
    let run' := (walk o budget).exec c (Slice.ofBytes data')
    data'.take run.2.pos = data.take run.2.pos → run.2.pos ≤ data'.length →
      data'.length ≤ data.length → run'.1 = run.1 ∧ run'.2.pos = run.2.pos := by
  intro run run' htake hstop hlength
  have hagrees : (Slice.ofBytes data).Agrees (Slice.ofBytes data') run.2.pos := by
    refine ⟨rfl, htake, ?_, ?_⟩
    · rw [Slice.size, Slice.ofBytes, Nat.zero_add]
      exact hstop
    · rw [Slice.size, Slice.size, Slice.ofBytes, Slice.ofBytes, Nat.zero_add, Nat.zero_add]
      exact hlength
  exact hagrees.run (Nat.le_refl _)

/-- A walk that goes on behind descriptors that were cut does not depend on the octets at which they
were given up. -/
theorem exec_eq_of_take_eq_cut :
    let o : Options := { arenaSize := 0 }
    let data := Track.twoEntries.take 166
    let data' := Track.twoEntries.take 162 ++ [7]
    let run := (walk o 175).exec (.start o) (Slice.ofBytes data)
    let run' := (walk o 175).exec (.start o) (Slice.ofBytes data')
    run.1.1 = .ok .proceed ∧ run.2.pos = 162 ∧ run'.1 = run.1 ∧ run'.2.pos = 162 := by
  intro o data data'
  have houtcome : ((walk o 175).exec (.start o) (Slice.ofBytes data)).1.1 = .ok .proceed := by cbv
  have hpos : ((walk o 175).exec (.start o) (Slice.ofBytes data)).2.pos = 162 := by cbv
  have hlocal := exec_eq_of_take_eq o 175 (.start o) data data'
  simp only [hpos] at hlocal
  obtain ⟨hresult, hend⟩ := hlocal (by cbv) (by cbv) (by cbv)
  exact ⟨houtcome, hpos, hresult, hend⟩

end Walk

end AudioAtoms
