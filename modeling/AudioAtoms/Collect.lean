import AudioAtoms.Scan
import AudioAtoms.Tag.Arena
import AudioAtoms.Track

/-!
# Collecting

While a file is read its record grows, and so does the arena with the values kept. Both survive an
error: what was collected before it stays.
-/
namespace AudioAtoms

structure Collected where
  track : Track := {}
  arena : Arena
deriving DecidableEq, Repr

def Collected.start (o : Options) : Collected := { arena := .ofCapacity o.arenaSize }

/-- A scan that collects, and may stop with an error of type `ε`. -/
abbrev Collect (ε : Type) (bounded : Bool) := ExceptT ε (StateT Collected (Scan bounded))

namespace Collect
variable {ε : Type} {bounded : Bool} {α : Type}

def ofFun (f : Collected → Scan bounded (Except ε α × Collected)) : Collect ε bounded α :=
  ExceptT.mk f

def read (p : Read bounded α) : Collect StreamError bounded α :=
  ofFun fun c => p.run.bind fun r => .done (r, c)

def note (m : Notice) : Collect ε bounded Unit := ofFun fun c => .note m (.done (.ok (), c))

def noteIfAny : Option Notice → Collect ε bounded Unit
  | some m => note m
  | none => return ()

def getTags : Collect ε bounded Tags := return (← get).track.tags

def modifyTags (f : Tags → Tags) : Collect ε bounded Unit :=
  modify fun c => { c with track := { c.track with tags := f c.track.tags } }

def modifyAudio (f : Audio → Audio) : Collect ε bounded Unit :=
  modify fun c => { c with track := { c.track with audio := f c.track.audio } }

def modifyArena (f : Arena → Arena) : Collect ε bounded Unit :=
  modify fun c => { c with arena := f c.arena }

/-- Takes over the arena with a new value in it and gives the text of the value. -/
def keep (kept : Except Arena.Refusal (String × Arena)) : Collect ε bounded (Option String) := do
  match kept with
  | .ok (text, arena) =>
    modifyArena fun _ => arena
    return some text
  | .error refusal =>
    noteIfAny refusal.notice?
    return none

def runFrom (p : Collect ε bounded α) (c : Collected) : Scan bounded (Except ε α × Collected) :=
  p.run.run c

variable {β : Type}

@[simp] theorem runFrom_pure (a : α) (c : Collected) :
    (pure a : Collect ε bounded α).runFrom c = .done (.ok a, c) := rfl

@[simp] theorem runFrom_throw (e : ε) (c : Collected) :
    (throw e : Collect ε bounded α).runFrom c = .done (.error e, c) := rfl

/-- The second scan runs only behind a first one that has a result, and goes on from what that one
collected. -/
@[simp] theorem runFrom_bind (p : Collect ε bounded α) (f : α → Collect ε bounded β)
    (c : Collected) :
    (p >>= f).runFrom c = (p.runFrom c).bind fun r =>
      match r.1 with
      | .ok a => (f a).runFrom r.2
      | .error e => .done (.error e, r.2) := by
  simp only [runFrom, ExceptT.run_bind, StateT.run_bind, Scan.bind_eq]
  congr 1
  funext r
  cases r.1 <;> rfl

@[simp] theorem runFrom_read (p : Read bounded α) (c : Collected) :
    (read p).runFrom c = p.run.bind fun r => .done (r, c) := rfl

@[simp] theorem runFrom_note (m : Notice) (c : Collected) :
    (note m : Collect ε bounded Unit).runFrom c = .note m (.done (.ok (), c)) := rfl

@[simp] theorem runFrom_get (c : Collected) :
    (get : Collect ε bounded Collected).runFrom c = .done (.ok c, c) := rfl

@[simp] theorem runFrom_modify (f : Collected → Collected) (c : Collected) :
    (modify f : Collect ε bounded Unit).runFrom c = .done (.ok (), f c) := rfl

end Collect

end AudioAtoms
