import AudioAtoms.Proofs.Checked.Streams
import AudioAtoms.Proofs.Content

/-!
# Checked payloads

The readers of headers and of the payloads of single atoms, with every operation on words and
buffers checked. Sizes come from the file and may be anything that fits into their field, so each
reader says how large the numbers are that it yields.
-/
namespace AudioAtoms
open Checked Guarded

section Windows
variable {bounded inner : Bool} {α β γ : Type} {R : α → β → Prop} {Good : γ → Prop}

/-- Readers that go on alike behind parallel scans in a window. -/
theorem Guarded.guards_within {p : Scan bounded α} {q : Scan bounded β} (hp : p.Parallel R q)
    {size : Nat} (hsize : size < 2 ^ 64) {f : α × Window → Guarded StreamError inner γ}
    {g : β × Window → Read inner γ}
    (h : ∀ a b w, R a b → w.Valid → (f (a, w)).Guards (g (b, w)) Good) :
    (p.withinChecked (.ofSize size) >>= f).Guards (Read.lift (q.within (.ofSize size)) >>= g)
      Good := by
  constructor
  rw [Guarded.run_bind, Read.run_bind, Read.run_lift, Scan.bind_assoc]
  refine (hp.within (Window.valid_ofSize hsize)).bind ?_
  rintro _ ⟨b, w⟩ ⟨a, rfl, hR, hw⟩
  exact (h a b w hR hw).run

end Windows

section Headers
variable {bounded : Bool}

def Header.readChecked (budget : Nat) : Guarded StreamError bounded Header := do
  let declared ← ofRead (Read.number 4)
  let code ← ofRead Read.code
  if declared = 0 then
    return ⟨.ofCode code, false, budget - minSize⟩
  else if declared = 1 then
    let size := max (← ofRead (Read.number 8)) (minSize + 8)
    note (.wideSize code size)
    return ⟨.other ⟨0, 0, 0, 0⟩, true, ← check (sub size (minSize + 8))⟩
  else
    if declared < minSize then note (.shortSize code declared)
    return ⟨.ofCode code, false, ← check (sub (max declared minSize) minSize)⟩

theorem Header.guards_read {budget : Nat} (hb : budget < 2 ^ 64) :
    (Header.readChecked budget : Guarded StreamError bounded Header).Guards (Header.read budget)
      (·.dataSize < 2 ^ 64) := by
  refine (guards_ofRead (Read.yields_number 4)).bind fun declared hd =>
    (guards_ofRead Read.yields_code).bind fun code _ => ?_
  by_cases h0 : declared = 0
  · rw [if_pos h0, if_pos h0]
    exact guards_pure (Nat.lt_of_le_of_lt (Nat.sub_le _ _) hb)
  · rw [if_neg h0, if_neg h0]
    by_cases h1 : declared = 1
    · rw [if_pos h1, if_pos h1]
      refine (guards_ofRead (Read.yields_number 8)).bind fun size hsize =>
        (guards_note _).bind fun _ _ => guards_check (sub_ok (Nat.le_max_right _ _)) ?_
      refine guards_pure (show max size (minSize + 8) - (minSize + 8) < 2 ^ 64 from ?_)
      unfold minSize
      omega
    · rw [if_neg h1, if_neg h1]
      have hsub : sub (max declared minSize) minSize = .ok (declared - minSize) := by
        rw [sub_ok (Nat.le_max_right _ _)]
        unfold minSize
        congr 1
        omega
      have hlast : (do return ⟨.ofCode code, false, ← check (sub (max declared minSize) minSize)⟩ :
          Guarded StreamError bounded Header).Guards
          (pure ⟨.ofCode code, false, declared - minSize⟩) (·.dataSize < 2 ^ 64) :=
        guards_check hsub (guards_pure (show declared - minSize < 2 ^ 64 by omega))
      by_cases hs : declared < minSize
      · rw [if_pos hs, if_pos hs]
        exact (guards_note _).bind fun _ _ => hlast
      · rw [if_neg hs, if_neg hs]
        exact hlast

end Headers

namespace Leaf
variable {bounded : Bool} {α : Type} {Good : α → Prop}

def readChecked (h : Header) (payload : Guarded StreamError true α) :
    Guarded StreamError bounded (Option α) := do
  let (result, window) ← payload.run.withinChecked (.ofSize h.dataSize)
  let found ← match result with
    | .ok a => pure (some a)
    | .error (.error e) =>
      if window.refused then
        note (.malformedAtom h.kind e)
        pure none
      else throw (.error e)
    | .error (.fault f) => throw (.fault f)
  ofRead (Read.skip (← check (sub window.size window.used)))
  return found

theorem guards_read {h : Header} (hh : h.dataSize < 2 ^ 64) {p : Guarded StreamError true α}
    {q : Read true α} (hp : p.Guards q Good) :
    (readChecked h p : Guarded StreamError bounded (Option α)).Guards (Leaf.read h q)
      fun r => ∀ a, r = some a → Good a := by
  refine guards_within hp.run hh ?_
  intro r s w hr hw
  have hskip (found : Option α) (hfound : ∀ a, found = some a → Good a) :
      (do
        ofRead (Read.skip (← check (sub w.size w.used)))
        return found : Guarded StreamError bounded (Option α)).Guards
      (do
        Read.skip w.left
        return found) fun r => ∀ a, r = some a → Good a :=
    guards_check (sub_ok hw.used)
      ((guards_ofRead (Read.yields_skip _)).bind fun _ _ => guards_pure hfound)
  cases hr with
  | ok a ha => exact hskip (some a) fun b hb => Option.some.inj hb ▸ ha
  | error e =>
    dsimp only
    by_cases hrefused : w.refused = true
    · rw [if_pos hrefused, if_pos hrefused]
      exact (guards_note _).bind fun _ _ => hskip none nofun
    · rw [if_neg hrefused, if_neg hrefused]
      exact ⟨.done _ _ (.error e)⟩

theorem yields_handler : (handler : Read bounded Handler).Yields fun _ => True :=
  (Read.yields_skip 8).bind fun _ _ => Read.yields_code.bind fun _ _ =>
    (Read.yields_note _).bind fun _ _ => Read.yields_pure trivial

theorem yields_brand : (brand : Read bounded Code).Yields fun _ => True :=
  Read.yields_code.bind fun _ _ => (Read.yields_note _).bind fun _ _ => Read.yields_pure trivial

theorem yields_firstChapter :
    (firstChapter : Read bounded (Option Nat)).Yields fun r => ∀ n, r = some n → n < 2 ^ 64 := by
  refine (Read.yields_skip 8).bind fun _ _ => (Read.yields_number 1).bind fun count _ => ?_
  by_cases h : count = 0
  · rw [if_pos h]
    exact Read.yields_pure nofun
  · rw [if_neg h]
    exact (Read.yields_number 8).bind fun tick ht =>
      Read.yields_pure fun n hn => Option.some.inj hn ▸ ht

def samplesBeforeChecked (tick sampleRate : Nat) : Checked Nat := do
  return min (← div (← mul 128 tick sampleRate) ticksPerSecond) (2 ^ 32 - 1)

theorem samplesBeforeChecked_eq {tick sampleRate : Nat} (ht : tick < 2 ^ 64)
    (hr : sampleRate < 2 ^ 32) :
    samplesBeforeChecked tick sampleRate = .ok (samplesBefore tick sampleRate) := by
  have hmul : tick * sampleRate < 2 ^ 128 := by
    calc tick * sampleRate < 2 ^ 64 * 2 ^ 32 := Nat.mul_lt_mul_of_lt_of_lt ht hr
      _ ≤ 2 ^ 128 := by decide
  rw [samplesBeforeChecked, mul_ok hmul, ok_bind, div_ok (by decide)]
  rfl

end Leaf

namespace SampleRun
variable {bounded : Bool}

def Fits (r : SampleRun) : Prop := r.count < 2 ^ 32 ∧ r.delta < 2 ^ 32

theorem yields_readMany (n : Nat) {runs : List SampleRun} (hruns : ∀ r ∈ runs, r.Fits) :
    (readMany n runs : Read bounded (List SampleRun)).Yields fun found => ∀ r ∈ found, r.Fits := by
  induction n generalizing runs with
  | zero => exact Read.yields_pure fun r hr => hruns r (List.mem_reverse.1 hr)
  | succ n ih =>
    refine (Read.yields_number 4).bind fun count hc => (Read.yields_number 4).bind fun delta hd =>
      ih ?_
    exact List.forall_mem_cons.2 ⟨⟨hc, hd⟩, hruns⟩

theorem yields_readTable (dataSize : Nat) :
    (readTable dataSize : Read bounded (List SampleRun)).Yields
      fun runs => ∀ r ∈ runs, r.Fits := by
  refine (Read.yields_skip 4).bind fun _ _ => (Read.yields_number 4).bind fun declared _ => ?_
  by_cases h : capacity dataSize < declared
  · rw [if_pos h]
    exact (Read.yields_note _).bind fun _ _ => yields_readMany _ nofun
  · rw [if_neg h]
    exact yields_readMany _ nofun

def samplesChecked (upsampled : Bool) (r : SampleRun) : Checked Nat := do
  let delta ← if r.halved upsampled then mul 32 r.delta 2 else pure r.delta
  mul 64 r.count delta

def totalChecked (upsampled : Bool) (runs : List SampleRun) : Checked Nat :=
  runs.foldlM (fun n r => do return min (n + (← r.samplesChecked upsampled)) (2 ^ 64 - 1)) 0

theorem Fits.mul_ok {r : SampleRun} (hr : r.Fits) {delta : Nat} (hd : delta < 2 ^ 32) :
    mul 64 r.count delta = .ok (r.count * delta) := by
  refine Checked.mul_ok ?_
  calc r.count * delta < 2 ^ 32 * 2 ^ 32 := Nat.mul_lt_mul_of_lt_of_lt hr.1 hd
    _ = 2 ^ 64 := by decide

theorem Fits.samplesChecked_eq {r : SampleRun} (hr : r.Fits) (upsampled : Bool) :
    r.samplesChecked upsampled = .ok (r.samples upsampled) := by
  unfold samplesChecked samples
  by_cases h : r.halved upsampled = true
  · have hdelta : r.delta ≤ coreFrame := by
      rw [halved, Bool.and_eq_true, decide_eq_true_eq] at h
      exact h.2
    have hdouble : r.delta * 2 < 2 ^ 32 := by
      unfold coreFrame at hdelta
      omega
    rw [if_pos h, if_pos h, Checked.mul_ok hdouble]
    exact hr.mul_ok hdouble
  · rw [if_neg h, if_neg h]
    exact hr.mul_ok hr.2

theorem totalChecked_eq {runs : List SampleRun} (hruns : ∀ r ∈ runs, r.Fits) (upsampled : Bool) :
    totalChecked upsampled runs = .ok (total upsampled runs) := by
  unfold totalChecked total
  generalize 0 = n
  induction runs generalizing n with
  | nil => rfl
  | cons r runs ih =>
    obtain ⟨hr, hrest⟩ := List.forall_mem_cons.1 hruns
    rw [List.foldlM_cons, hr.samplesChecked_eq, List.foldl_cons]
    exact ih hrest _

theorem total_lt (upsampled : Bool) (runs : List SampleRun) : total upsampled runs < 2 ^ 64 := by
  rw [total_eq_min_sum]
  exact Nat.lt_of_le_of_lt (Nat.min_le_right _ _) (by decide)

end SampleRun

end AudioAtoms
