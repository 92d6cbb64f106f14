import AudioAtoms.Proofs.WalkVisit

/-!
# Sample tables in full

A sample table lists as many runs as it declares, or as its payload has room for. Whatever number it
declares, just these runs are read. Their samples are added up without a loss until the sum passes
64 bits, and in whatever order the runs come.
-/
namespace AudioAtoms

namespace Content

def storedRun (bs : Bytes) (i : Nat) : SampleRun :=
  ⟨numberAt bs (8 + 8 * i) 4, numberAt bs (12 + 8 * i) 4⟩

def storedRuns (dataSize : Nat) (bs : Bytes) : List SampleRun :=
  (List.range (min (numberAt bs 4 4) ((dataSize - 8) / 8))).map (storedRun bs)

theorem numberAt_take {bs : Bytes} {start width size : Nat} (h : start + width ≤ size) :
    numberAt (bs.take size) start width = numberAt bs start width := by
  rw [numberAt, numberAt, List.drop_take, List.take_take, Nat.min_eq_left (by omega)]

theorem runs_eq_map (n : Nat) (bs : Bytes) (h : 8 * n ≤ bs.length) :
    runs n bs = (List.range n).map fun i => ⟨numberAt bs (8 * i) 4, numberAt bs (4 + 8 * i) 4⟩ := by
  induction n generalizing bs with
  | zero => rfl
  | succ n ih =>
    have hrest : 8 * n ≤ (bs.drop 8).length := by
      rw [List.length_drop]
      omega
    have hnext (i : Nat) :
        8 + 8 * i = 8 * (i + 1) ∧ 8 + (4 + 8 * i) = 4 + 8 * (i + 1) := by omega
    rw [runs, if_neg (by omega), ih _ hrest, List.range_succ_eq_map, List.map_cons, List.map_map]
    simp only [numberAt, List.drop_drop, Function.comp_def, (hnext _).1, (hnext _).2, Nat.succ_eq_add_one,
      Nat.mul_zero, Nat.add_zero]

/-- The content of a sample table, run by run. -/
theorem sampleTable?_eq_stored {bs : Bytes} {dataSize : Nat} (h : 8 ≤ dataSize)
    (hs : dataSize ≤ bs.length) :
    sampleTable? (bs.take dataSize) = some (storedRuns dataSize bs) := by
  have hlen : (bs.take dataSize).length = dataSize := List.length_take_of_le hs
  have hrest : ((bs.take dataSize).drop 8).length = dataSize - 8 := by
    rw [List.length_drop, hlen]
  rw [sampleTable?, if_pos (by omega), numberAt_take (by omega), ← SampleRun.runs_min, hrest,
    runs_eq_map _ _ (by rw [hrest]; omega), storedRuns]
  congr 1
  refine List.map_congr_left fun i hi => ?_
  have hi : i < (dataSize - 8) / 8 := by
    rw [List.mem_range] at hi
    omega
  have hcount : 8 + 8 * i + 4 ≤ dataSize := by omega
  have hdelta : 12 + 8 * i + 4 ≤ dataSize := by omega
  rw [storedRun, ← numberAt_take hcount, ← numberAt_take hdelta]
  simp only [numberAt, List.drop_drop, ← Nat.add_assoc]

end Content

theorem Read.exec_of_result {α : Type} {p : Read true α} {s : Payload} {a : α}
    (h : p.result s = some a) : (p.exec s).1 = .ok a := by
  rw [result] at h
  cases hr : (p.exec s).1 with
  | error e =>
    rw [hr] at h
    cases h
  | ok b =>
    rw [hr] at h
    exact congrArg Except.ok (Option.some.inj h)

namespace SampleRun

theorem halved_iff (upsampled : Bool) (r : SampleRun) :
    r.halved upsampled = true ↔ upsampled = true ∧ r.delta ≤ 1024 := by
  rw [halved, Bool.and_eq_true, decide_eq_true_eq]
  rfl

theorem samples_eq (upsampled : Bool) (r : SampleRun) :
    r.samples upsampled =
      r.count * if upsampled = true ∧ r.delta ≤ 1024 then 2 * r.delta else r.delta := by
  unfold samples
  by_cases h : r.halved upsampled = true
  · rw [if_pos h, if_pos ((r.halved_iff upsampled).mp h), Nat.mul_comm r.delta 2]
  · rw [if_neg h, if_neg fun hd => h ((r.halved_iff upsampled).mpr hd)]

theorem any_halved_iff (upsampled : Bool) (runs : List SampleRun) :
    runs.any (·.halved upsampled) = true ↔ upsampled = true ∧ ∃ r ∈ runs, r.delta ≤ 1024 := by
  simp only [List.any_eq_true, halved_iff]
  constructor
  · rintro ⟨r, hr, hup, hdelta⟩
    exact ⟨hup, r, hr, hdelta⟩
  · rintro ⟨hup, r, hr, hdelta⟩
    exact ⟨r, hr, hup, hdelta⟩

/-- A sample table whose payload is there is read inside its window, run by run, whatever number it
declares. -/
theorem exec_readTable_stored {dataSize : Nat} {s : Slice} (h : 8 ≤ dataSize)
    (hs : dataSize ≤ s.rest.length) :
    ((readTable dataSize : Read true _).exec (Scoped.ofSize s dataSize)).1 =
      .ok (Content.storedRuns dataSize s.rest) := by
  obtain ⟨pos, rest⟩ := s
  have hlen : (rest.take dataSize).length = dataSize := List.length_take_of_le hs
  have hpayload := result_readTable pos (rest.take dataSize)
  have hscoped := Slice.run_scoped (readTable dataSize : Read true _).run pos (rest.take dataSize)
    (rest.drop dataSize) (.ofSize dataSize) (by rw [hlen]; exact (Nat.zero_add _).symm)
  rw [List.take_append_drop] at hscoped
  rw [hlen, Content.sampleTable?_eq_stored h hs] at hpayload
  exact hscoped.trans (Read.exec_of_result hpayload)

/-- A sample table is read in full and summed exactly. Inside a window of its size it gives the
runs that it declares, or those that its payload has room for. The total of any runs is the exact
sum of their samples, cut once to 64 bits, with the durations doubled that count core samples; it
does not depend on the order of the runs, and the record tells whether any duration was doubled. -/
theorem readTable_total :
    (∀ (dataSize : Nat) (s : Slice), 8 ≤ dataSize → dataSize ≤ s.rest.length →
      ((readTable dataSize : Read true _).exec (Scoped.ofSize s dataSize)).1 =
        .ok (Content.storedRuns dataSize s.rest)) ∧
    (∀ (upsampled : Bool) (runs : List SampleRun),
      total upsampled runs = min (2 ^ 64 - 1) (runs.map fun r =>
        r.count * if upsampled = true ∧ r.delta ≤ 1024 then 2 * r.delta else r.delta).sum ∧
      (runs.any (·.halved upsampled) = true ↔ upsampled = true ∧ ∃ r ∈ runs, r.delta ≤ 1024) ∧
      ∀ runs' : List SampleRun, runs.Perm runs' →
        total upsampled runs' = total upsampled runs ∧
          runs'.any (·.halved upsampled) = runs.any (·.halved upsampled)) ∧
    ∀ (h : Header) (c : Collected) (s : Slice), 8 ≤ h.dataSize → h.dataSize ≤ s.rest.length →
      (Walk.sampleTable h).exec c s =
        ((.ok .proceed, c.mapAudio (Content.withRuns (Content.storedRuns h.dataSize s.rest))),
          s.advance h.dataSize) := by
  refine ⟨fun dataSize s => exec_readTable_stored, fun upsampled runs => ⟨?_, ?_, ?_⟩, ?_⟩
  · rw [total_eq_min_sum, Nat.min_comm, funext (samples_eq upsampled)]
  · exact any_halved_iff upsampled runs
  · intro runs' hperm
    refine ⟨?_, hperm.symm.any_eq⟩
    rw [total_eq_min_sum, total_eq_min_sum, (hperm.map (samples upsampled)).sum_nat]
  · intro h c s h8 hs
    have hlen : (s.rest.take h.dataSize).length = h.dataSize := List.length_take_of_le hs
    have hexec := Walk.exec_sampleTable h c s.pos (s.rest.take h.dataSize) (s.rest.drop h.dataSize)
      {} hlen.symm
    rw [List.take_append_drop, hlen] at hexec
    rw [hexec, Content.apply, Content.sampleTable?_eq_stored h8 hs]
    rfl

/-- A table that declares all runs there can be and has room for two and a half, behind which the
file goes on. -/
theorem readTable_total_cut :
    let table : Bytes := [0, 0, 0, 0, 0xff, 0xff, 0xff, 0xff, 0, 0, 0, 100, 0, 0, 4, 0,
      0xff, 0xff, 0xff, 0xff, 0xff, 0xff, 0xff, 0xff, 0, 0, 0, 1]
    let runs : List SampleRun := [⟨100, 1024⟩, ⟨2 ^ 32 - 1, 2 ^ 32 - 1⟩]
    ((readTable 28 : Read true _).exec (Scoped.ofSize (Slice.mk 8 (table ++ [7, 7, 7, 7])) 28)).1 =
        .ok runs ∧
      total true runs = (2 ^ 32 - 1) ^ 2 + 204800 ∧
      total true (runs ++ runs) = 2 ^ 64 - 1 ∧ runs.any (·.halved true) = true := by
  intro table runs
  obtain ⟨hread, htotal, -⟩ := readTable_total
  refine ⟨(hread 28 (Slice.mk 8 (table ++ [7, 7, 7, 7])) (by decide) (by decide)).trans ?_, ?_, ?_, ?_⟩
  · exact congrArg Except.ok (by decide)
  · rw [(htotal true runs).1]
    decide
  · rw [(htotal true (runs ++ runs)).1]
    decide
  · exact (htotal true runs).2.1.mpr ⟨rfl, ⟨100, 1024⟩, by decide, by decide⟩

end SampleRun

end AudioAtoms
