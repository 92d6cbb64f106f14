import Mathlib
import AudioAtoms.Walk

/-!
# Executing readers on a stream

A reader is a scan with errors, a collecting reader is one that also carries what was collected.
`exec` runs either of them on a stream. The lemmas below say what each building block does, so that
no later argument has to open the transformers behind them.
-/
namespace AudioAtoms

variable {bounded : Bool} {ε α β σ : Type} [ByteStream bounded σ]

namespace Read

def exec (p : Read bounded α) (s : σ) : Except StreamError α × σ := p.run.run s

@[simp] theorem exec_pure (a : α) (s : σ) : (pure a : Read bounded α).exec s = (.ok a, s) := rfl

@[simp] theorem exec_throw (e : StreamError) (s : σ) :
    (throw e : Read bounded α).exec s = (.error e, s) := rfl

theorem exec_bind (p : Read bounded α) (f : α → Read bounded β) (s : σ) :
    (p >>= f).exec s =
      match p.exec s with
      | (.ok a, t) => (f a).exec t
      | (.error e, t) => (.error e, t) := by
  simp only [exec, run_bind, Scan.run_bind]
  rcases p.run.run s with ⟨_ | _, t⟩ <;> rfl

theorem exec_bind_ok {p : Read bounded α} {s t : σ} {a : α} (h : p.exec s = (.ok a, t))
    (f : α → Read bounded β) : (p >>= f).exec s = (f a).exec t := by
  rw [exec_bind, h]

theorem exec_bind_error {p : Read bounded α} {s t : σ} {e : StreamError}
    (h : p.exec s = (.error e, t)) (f : α → Read bounded β) :
    (p >>= f).exec s = (.error e, t) := by
  rw [exec_bind, h]

/-- Two readers in a row give what the second one gives behind the first. -/
theorem exec_bind_eq_ok {p : Read bounded α} {f : α → Read bounded β} {s t : σ} {b : β}
    (h : (p >>= f).exec s = (.ok b, t)) :
    ∃ a u, p.exec s = (.ok a, u) ∧ (f a).exec u = (.ok b, t) := by
  rw [exec_bind] at h
  rcases hp : p.exec s with ⟨e | a, u⟩
  · rw [hp] at h
    cases h
  · rw [hp] at h
    exact ⟨a, u, rfl, h⟩

/-- A reader that succeeds on a condition only lets the next one run on that condition. -/
theorem exec_bind_ite {p : Read bounded α} {s t u : σ} {a : α} {e : StreamError} {q : Prop}
    [Decidable q] (h : p.exec s = if q then (.ok a, t) else (.error e, u))
    (f : α → Read bounded β) :
    (p >>= f).exec s = if q then (f a).exec t else (.error e, u) := by
  by_cases hq : q
  · rw [if_pos hq] at h ⊢
    exact exec_bind_ok h f
  · rw [if_neg hq] at h ⊢
    exact exec_bind_error h f

theorem exec_exactly (n : Nat) (s : σ) :
    (exactly n : Read bounded Bytes).exec s = ByteStream.answer (.exactly n : Request bounded) s := rfl

theorem exec_skip (n : Nat) (s : σ) :
    (skip n : Read bounded Unit).exec s = ByteStream.answer (.skip n : Request bounded) s := rfl

@[simp] theorem exec_note (m : Notice) (s : σ) :
    (note m : Read bounded Unit).exec s = (.ok (), s) := rfl

@[simp] theorem exec_lift (p : Scan bounded α) (s : σ) :
    (lift p).exec s = (.ok (p.run s).1, (p.run s).2) := by
  simp only [exec, run_lift, Scan.run_bind, Scan.run_done]

end Read

namespace Collect

def exec (p : Collect ε bounded α) (c : Collected) (s : σ) : (Except ε α × Collected) × σ :=
  (p.runFrom c).run s

@[simp] theorem exec_pure (a : α) (c : Collected) (s : σ) :
    (pure a : Collect ε bounded α).exec c s = ((.ok a, c), s) := rfl

@[simp] theorem exec_throw (e : ε) (c : Collected) (s : σ) :
    (throw e : Collect ε bounded α).exec c s = ((.error e, c), s) := rfl

theorem exec_bind (p : Collect ε bounded α) (f : α → Collect ε bounded β) (c : Collected) (s : σ) :
    (p >>= f).exec c s =
      match p.exec c s with
      | ((.ok a, d), t) => (f a).exec d t
      | ((.error e, d), t) => ((.error e, d), t) := by
  simp only [exec, runFrom_bind, Scan.run_bind]
  rcases (p.runFrom c).run s with ⟨⟨_ | _, d⟩, t⟩ <;> rfl

theorem exec_bind_ok {p : Collect ε bounded α} {c d : Collected} {s t : σ} {a : α}
    (h : p.exec c s = ((.ok a, d), t)) (f : α → Collect ε bounded β) :
    (p >>= f).exec c s = (f a).exec d t := by
  rw [exec_bind, h]

theorem exec_bind_error {p : Collect ε bounded α} {c d : Collected} {s t : σ} {e : ε}
    (h : p.exec c s = ((.error e, d), t)) (f : α → Collect ε bounded β) :
    (p >>= f).exec c s = ((.error e, d), t) := by
  rw [exec_bind, h]

@[simp] theorem exec_read (p : Read bounded α) (c : Collected) (s : σ) :
    (read p).exec c s = (((p.exec s).1, c), (p.exec s).2) := by
  simp only [exec, runFrom_read, Scan.run_bind, Scan.run_done, Read.exec]

@[simp] theorem exec_note (m : Notice) (c : Collected) (s : σ) :
    (note m : Collect ε bounded Unit).exec c s = ((.ok (), c), s) := rfl

@[simp] theorem exec_noteIfAny (m : Option Notice) (c : Collected) (s : σ) :
    (noteIfAny m : Collect ε bounded Unit).exec c s = ((.ok (), c), s) := by
  cases m <;> rfl

@[simp] theorem exec_get (c : Collected) (s : σ) :
    (get : Collect ε bounded Collected).exec c s = ((.ok c, c), s) := rfl

@[simp] theorem exec_modify (f : Collected → Collected) (c : Collected) (s : σ) :
    (modify f : Collect ε bounded Unit).exec c s = ((.ok (), f c), s) := rfl

@[simp] theorem exec_set (d c : Collected) (s : σ) :
    (set d : Collect ε bounded Unit).exec c s = ((.ok (), d), s) := rfl

/-- A scan that neither fails nor collects. -/
theorem runFrom_liftScan (p : Scan bounded α) (c : Collected) :
    runFrom (ExceptT.lift (StateT.lift p) : Collect ε bounded α) c =
      p.bind fun a => .done (.ok a, c) := by
  have hrun : runFrom (ExceptT.lift (StateT.lift p) : Collect ε bounded α) c =
      (p.bind fun a => .done (a, c)).bind fun r => .done (.ok r.1, r.2) := rfl
  rw [hrun, Scan.bind_assoc]
  rfl

@[simp] theorem exec_liftScan (p : Scan bounded α) (c : Collected) (s : σ) :
    exec (ExceptT.lift (StateT.lift p) : Collect ε bounded α) c s =
      ((.ok (p.run s).1, c), (p.run s).2) := by
  rw [exec, runFrom_liftScan, Scan.run_bind]
  rfl

end Collect

namespace Walk

theorem runFrom_lift (p : Collect StreamError false α) (c : Collected) :
    (lift p).runFrom c = (p.runFrom c).bind fun r => .done (r.1.mapError .stream, r.2) := rfl

theorem exec_lift [ByteStream false σ] (p : Collect StreamError false α) (c : Collected) (s : σ) :
    (lift p).exec c s =
      (((p.exec c s).1.1.mapError .stream, (p.exec c s).1.2), (p.exec c s).2) := by
  rw [Collect.exec, runFrom_lift, Scan.run_bind]
  rfl

end Walk

end AudioAtoms
