import AudioAtoms.Notice

/-!
# Scans

A scan is a tree of requests to a stream of octets: each node asks for something and goes on
according to the answer. A scan knows nothing of how the stream is made, so two streams that give
the same answers take every scan to the same result.

Some streams know how many octets they have left. Only a scan for such streams may ask for that
number, which the flag `bounded` records.
-/
namespace AudioAtoms

inductive Request (bounded : Bool) where
  /-- Exactly so many octets, or an error. -/
  | exactly (n : Nat)
  /-- As many octets as there are, up to a limit. -/
  | upTo (n : Nat)
  /-- Move over so many octets. -/
  | skip (n : Nat)
  /-- The position in the stream. -/
  | position
  /-- The number of octets left. -/
  | remaining (h : bounded = true)

namespace Request

abbrev Answer {bounded : Bool} : Request bounded → Type
  | exactly _ | upTo _ => Except StreamError Bytes
  | skip _ => Except StreamError Unit
  | position | remaining _ => Nat

end Request

class ByteStream (bounded : Bool) (σ : Type) where
  answer : (q : Request bounded) → σ → q.Answer × σ

inductive Scan (bounded : Bool) (α : Type) where
  | done (a : α)
  | ask (q : Request bounded) (next : q.Answer → Scan bounded α)
  | note (notice : Notice) (rest : Scan bounded α)

namespace Scan
variable {bounded : Bool} {α β γ σ : Type}

def bind : Scan bounded α → (α → Scan bounded β) → Scan bounded β
  | done a, f => f a
  | ask q next, f => ask q fun r => (next r).bind f
  | note m rest, f => note m (rest.bind f)

instance : Monad (Scan bounded) where
  pure := done
  bind := bind

/-- Puts the requests of a scan to a stream. -/
def run [ByteStream bounded σ] : Scan bounded α → σ → α × σ
  | done a, s => (a, s)
  | ask q next, s => (next (ByteStream.answer q s).1).run (ByteStream.answer q s).2
  | note _ rest, s => rest.run s

def notices [ByteStream bounded σ] : Scan bounded α → σ → List Notice
  | done _, _ => []
  | ask q next, s => (next (ByteStream.answer q s).1).notices (ByteStream.answer q s).2
  | note m rest, s => m :: rest.notices s

@[simp] theorem pure_eq (a : α) : (pure a : Scan bounded α) = done a := rfl

@[simp] theorem bind_eq (p : Scan bounded α) (f : α → Scan bounded β) : p >>= f = p.bind f := rfl

@[simp] theorem bind_done (a : α) (f : α → Scan bounded β) : (done a).bind f = f a := rfl

@[simp] theorem bind_ask (q : Request bounded) (next : q.Answer → Scan bounded α)
    (f : α → Scan bounded β) : (ask q next).bind f = ask q fun r => (next r).bind f := rfl

@[simp] theorem bind_note (m : Notice) (p : Scan bounded α) (f : α → Scan bounded β) :
    (note m p).bind f = note m (p.bind f) := rfl

theorem bind_done_right (p : Scan bounded α) : p.bind done = p := by
  induction p with
  | done a => rfl
  | ask q next ih => simp only [bind_ask, ih]
  | note m rest ih => rw [bind_note, ih]

theorem bind_assoc (p : Scan bounded α) (f : α → Scan bounded β) (g : β → Scan bounded γ) :
    (p.bind f).bind g = p.bind fun a => (f a).bind g := by
  induction p with
  | done a => rfl
  | ask q next ih => simp only [bind_ask, ih]
  | note m rest ih => simp only [bind_note, ih]

instance : LawfulMonad (Scan bounded) :=
  LawfulMonad.mk' (Scan bounded) bind_done_right (fun _ _ => rfl) bind_assoc

section Run
variable [ByteStream bounded σ]

@[simp] theorem run_done (a : α) (s : σ) : (done a : Scan bounded α).run s = (a, s) := rfl

@[simp] theorem run_ask (q : Request bounded) (next : q.Answer → Scan bounded α) (s : σ) :
    (ask q next).run s = (next (ByteStream.answer q s).1).run (ByteStream.answer q s).2 := rfl

@[simp] theorem run_note (m : Notice) (p : Scan bounded α) (s : σ) : (note m p).run s = p.run s :=
  rfl

/-- Running one scan behind another is running it where the first one stopped. -/
theorem run_bind (p : Scan bounded α) (f : α → Scan bounded β) (s : σ) :
    (p.bind f).run s = (f (p.run s).1).run (p.run s).2 := by
  induction p generalizing s with
  | done a => rfl
  | ask q next ih => simp only [bind_ask, run_ask, ih]
  | note m rest ih => simp only [bind_note, run_note, ih]

end Run

/-- Streams that answer alike take a scan to the same result, and stay alike. -/
theorem run_of_alike {τ : Type} [ByteStream bounded σ] [ByteStream bounded τ]
    (Alike : σ → τ → Prop)
    (h : ∀ (q : Request bounded) s t, Alike s t →
      (ByteStream.answer q s).1 = (ByteStream.answer q t).1 ∧
        Alike (ByteStream.answer q s).2 (ByteStream.answer q t).2)
    (p : Scan bounded α) (s : σ) (t : τ) (hst : Alike s t) :
    (p.run s).1 = (p.run t).1 ∧ Alike (p.run s).2 (p.run t).2 := by
  induction p generalizing s t with
  | done a => exact ⟨rfl, hst⟩
  | ask q next ih =>
    obtain ⟨hr, hn⟩ := h q s t hst
    simp only [run_ask, hr]
    exact ih _ _ _ hn
  | note m rest ih => exact ih s t hst

end Scan

abbrev Read (bounded : Bool) := ExceptT StreamError (Scan bounded)

namespace Read
variable {bounded : Bool} {α : Type}

def ofScan (p : Scan bounded (Except StreamError α)) : Read bounded α := ExceptT.mk p

def lift (p : Scan bounded α) : Read bounded α := ExceptT.lift p

def exactly (n : Nat) : Read bounded Bytes := ofScan (.ask (.exactly n) .done)

def upTo (n : Nat) : Read bounded Bytes := ofScan (.ask (.upTo n) .done)

def skip (n : Nat) : Read bounded Unit := ofScan (.ask (.skip n) .done)

def position : Read bounded Nat := ofScan (.ask .position fun p => .done (.ok p))

def remaining : Read true Nat := ofScan (.ask (.remaining rfl) fun n => .done (.ok n))

def note (m : Notice) : Read bounded Unit := ofScan (.note m (.done (.ok ())))

def number (n : Nat) : Read bounded Nat := do
  return Bytes.toNat (← exactly n)

def code : Read bounded Code := do
  return .ofBytes (← exactly 4)

variable {β : Type}

@[simp] theorem run_pure (a : α) : (pure a : Read bounded α).run = .done (.ok a) := rfl

@[simp] theorem run_throw (e : StreamError) :
    (throw e : Read bounded α).run = .done (.error e) := rfl

/-- The second scan runs only behind a first one that has a result. -/
@[simp] theorem run_bind (p : Read bounded α) (f : α → Read bounded β) :
    (p >>= f).run = p.run.bind fun r =>
      match r with
      | .ok a => (f a).run
      | .error e => .done (.error e) := by
  rw [ExceptT.run_bind, Scan.bind_eq]
  congr 1
  funext r
  cases r <;> rfl

@[simp] theorem run_lift (p : Scan bounded α) :
    (lift p).run = p.bind fun a => .done (.ok a) := rfl

@[simp] theorem run_exactly (n : Nat) :
    (exactly n : Read bounded Bytes).run = .ask (.exactly n) .done := rfl

@[simp] theorem run_upTo (n : Nat) :
    (upTo n : Read bounded Bytes).run = .ask (.upTo n) .done := rfl

@[simp] theorem run_skip (n : Nat) :
    (skip n : Read bounded Unit).run = .ask (.skip n) .done := rfl

@[simp] theorem run_note (m : Notice) :
    (note m : Read bounded Unit).run = .note m (.done (.ok ())) := rfl

end Read

end AudioAtoms
