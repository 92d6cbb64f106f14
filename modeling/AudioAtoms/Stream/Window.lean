import AudioAtoms.Scan

/-!
# Windows

A window lets a scan see only the next octets of a stream. A request of fixed size that reaches
beyond the window is refused without touching the stream, and the window remembers that. Any other
such request is charged to the window before the stream answers it, so it stays charged if the
stream fails. A request for up to so many octets is cut to the window and charged by what came.
-/
namespace AudioAtoms

structure Window where
  size : Nat
  used : Nat
  refused : Bool
deriving DecidableEq, Repr

namespace Window

def ofSize (n : Nat) : Window := ⟨n, 0, false⟩

def left (w : Window) : Nat := w.size - w.used

def refuse (w : Window) : Window := { w with refused := true }

def charge (w : Window) (n : Nat) : Window := { w with used := w.used + n }

def close (w : Window) : Window := { w with used := w.size }

variable {bounded inner : Bool}

/-- Answers a request to the window by at most one request to the stream behind it. -/
def answer (w : Window) (q : Request bounded) : Scan inner (q.Answer × Window) :=
  match q with
  | .exactly n =>
    if w.left < n then .done (.error .outOfBounds, w.refuse)
    else .ask (.exactly n) fun r => .done (r, w.charge n)
  | .upTo n =>
    .ask (.upTo (min w.left n)) fun r =>
      match r with
      | .ok bs => .done (.ok bs, w.charge bs.length)
      | .error e => .done (.error e, w)
  | .skip n =>
    if w.left < n then .done (.error .outOfBounds, w.refuse)
    else .ask (.skip n) fun r => .done (r, w.charge n)
  | .position => .ask .position fun p => .done (p, w)
  | .remaining _ => .done (w.left, w)

/-- Moves over what is left of the window, which is then used up. -/
def skipRest (w : Window) : Scan inner (Except StreamError Unit × Window) :=
  .ask (.skip w.left) fun r => .done (r, w.close)

end Window

def Scan.within {bounded inner : Bool} {α : Type} :
    Scan bounded α → Window → Scan inner (α × Window)
  | done a, w => done (a, w)
  | ask q next, w => (w.answer q).bind fun r => (next r.1).within r.2
  | note m rest, w => note m (rest.within w)

/-- A stream seen through a window is a stream again, and knows how many octets it has left. -/
structure Scoped (σ : Type) where
  inner : σ
  window : Window

namespace Scoped
variable {σ : Type}

def ofSize (s : σ) (n : Nat) : Scoped σ := ⟨s, .ofSize n⟩

instance {bounded : Bool} [ByteStream false σ] : ByteStream bounded (Scoped σ) where
  answer q s :=
    let r := (s.window.answer q : Scan false _).run s.inner
    (r.1.1, ⟨r.2, r.1.2⟩)

/-- Running a scan inside a window is running it on the stream seen through that window. -/
theorem run_within {bounded : Bool} {α : Type} [ByteStream false σ] (p : Scan bounded α)
    (w : Window) (s : σ) :
    ((p.within w : Scan false (α × Window)).run s) =
      let r := p.run (⟨s, w⟩ : Scoped σ)
      ((r.1, r.2.window), r.2.inner) := by
  induction p generalizing w s with
  | done a => rfl
  | ask q next ih =>
    rw [Scan.within, Scan.run_bind, ih]
    rfl
  | note m rest ih => exact ih w s

end Scoped

end AudioAtoms
