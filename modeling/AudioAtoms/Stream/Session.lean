import AudioAtoms.Stream.Window

/-!
# Sessions

A session works on a stream step by step. It can open a window onto what it sees, work inside it,
and close it again; windows nest.
-/
namespace AudioAtoms

def Nested (σ : Type) : Nat → Type
  | 0 => σ
  | depth + 1 => Scoped (Nested σ depth)

namespace Nested
variable {σ : Type}

@[reducible] def byteStream [ByteStream false σ] : (depth : Nat) → ByteStream false (Nested σ depth)
  | 0 => inferInstanceAs (ByteStream false σ)
  | depth + 1 =>
    letI : ByteStream false (Nested σ depth) := byteStream depth
    inferInstanceAs (ByteStream false (Scoped (Nested σ depth)))

instance [ByteStream false σ] {depth : Nat} : ByteStream false (Nested σ depth) :=
  byteStream depth

def base : {depth : Nat} → Nested σ depth → σ
  | 0, s => s
  | _ + 1, s => base s.inner

end Nested

structure Session (σ : Type) where
  depth : Nat
  stream : Nested σ depth

namespace Session
variable {σ : Type}

def ofStream (s : σ) : Session σ := ⟨0, s⟩

def base (s : Session σ) : σ := s.stream.base

def window? : Session σ → Option Window
  | ⟨0, _⟩ => none
  | ⟨_ + 1, s⟩ => some s.window

def ask [ByteStream false σ] (s : Session σ) (q : Request false) : q.Answer × Session σ :=
  let r := ByteStream.answer q s.stream
  (r.1, ⟨s.depth, r.2⟩)

def enter (s : Session σ) (n : Nat) : Session σ :=
  ⟨s.depth + 1, (Scoped.ofSize s.stream n : Scoped (Nested σ s.depth))⟩

/-- Closes the innermost window. The stream stays where it is. -/
def leave : Session σ → Session σ
  | ⟨0, s⟩ => ⟨0, s⟩
  | ⟨depth + 1, s⟩ => ⟨depth, s.inner⟩

def skipRest [ByteStream false σ] : Session σ → Except StreamError Unit × Session σ
  | ⟨0, s⟩ => (.ok (), ⟨0, s⟩)
  | ⟨depth + 1, s⟩ =>
    let r := (s.window.skipRest : Scan false _).run s.inner
    (r.1.1, ⟨depth + 1, (⟨r.2, r.1.2⟩ : Scoped (Nested σ depth))⟩)

def onBase {α : Type} (s : Session σ) (f : σ → α × σ) : Option (α × Session σ) :=
  match s with
  | ⟨0, s⟩ => some ((f s).1, ⟨0, (f s).2⟩)
  | ⟨_ + 1, _⟩ => none

end Session

end AudioAtoms
