import AudioAtoms.Bytes
import AudioAtoms.Stream.Error

/-!
# Sources

A source is a device that holds octets and can be read and sought. Its answers to read calls follow
a schedule: a call may be interrupted, fail, or yield some of the octets asked for. Calls are
counted from one, and a call that is interrupted is made again, so a schedule must not be interrupted
for ever.
-/
namespace AudioAtoms

inductive Attempt where
  | fails
  /-- As many octets as asked for, no more than a limit if there is one. -/
  | yields (most : Option Nat)
deriving DecidableEq, Repr

structure Schedule where
  /-- The outcome of each call, nothing if it is interrupted. -/
  attempt : Nat → Option Attempt
  resumes : ∀ n, ∃ k, (attempt (n + k)).isSome

namespace Schedule

/-- A call of a schedule, by its number. -/
structure Call (s : Schedule) where
  number : Nat

/-- A call is followed by the next one if it is interrupted, and by none otherwise. -/
def Follows (s : Schedule) (m n : Call s) : Prop :=
  m.number = n.number + 1 ∧ s.attempt n.number = none

theorem acc_follows (s : Schedule) (k n : Nat) (h : (s.attempt (n + k)).isSome) :
    Acc s.Follows ⟨n⟩ := by
  induction k generalizing n with
  | zero =>
    refine ⟨_, fun m hm => ?_⟩
    rw [Nat.add_zero, hm.2] at h
    cases h
  | succ k ih =>
    refine ⟨_, fun ⟨m⟩ hm => ?_⟩
    obtain rfl : m = n + 1 := hm.1
    exact ih (n + 1) (by rwa [Nat.add_right_comm])

instance (s : Schedule) : WellFoundedRelation (Call s) where
  rel := s.Follows
  wf := ⟨fun ⟨n⟩ => (s.resumes n).elim fun k hk => s.acc_follows k n hk⟩

def resume (s : Schedule) (n : Nat) : Nat × Attempt :=
  match h : s.attempt n with
  | some outcome => (n, outcome)
  | none => s.resume (n + 1)
termination_by (⟨n⟩ : Call s)
decreasing_by exact ⟨rfl, h⟩

def steady : Schedule where
  attempt _ := some (.yields none)
  resumes _ := ⟨0, rfl⟩

def failing : Schedule where
  attempt _ := some .fails
  resumes _ := ⟨0, rfl⟩

/-- Every `period`-th call is interrupted, none if the period is zero. Other calls yield at most
`most` octets, and from call `failFrom` on they fail. -/
def periodic (period : Nat) (h : period ≠ 1) (most failFrom : Option Nat) : Schedule where
  attempt n :=
    if n % period = 0 then none
    else some (if failFrom.any (· ≤ n) then .fails else .yields most)
  resumes n := by
    by_cases hn : n % period = 0
    · refine ⟨1, ?_⟩
      have hdvd : ¬ period ∣ n + 1 := fun hd =>
        h (Nat.dvd_one.mp ((Nat.dvd_add_right (Nat.dvd_of_mod_eq_zero hn)).mp hd))
      simp [show (n + 1) % period ≠ 0 from fun h0 => hdvd (Nat.dvd_of_mod_eq_zero h0)]
    · exact ⟨0, by simp [hn]⟩

end Schedule

structure Source where
  content : Array UInt8
  pos : Nat
  /-- The number of read calls so far. -/
  calls : Nat
  schedule : Schedule
  /-- Whether seeking works at all. -/
  seekable : Bool
  lengthKnown : Bool
  /-- The largest position that can be sought. -/
  lastPos : Nat

namespace Source

def ofContent (content : Array UInt8) (pos : Nat) (schedule : Schedule) : Source :=
  ⟨content, pos, 0, schedule, true, true, 2 ^ 64 - 1⟩

/-- A file that was just opened. Its positions are signed words of 64 bits. -/
def ofFile (content : Array UInt8) : Source :=
  ⟨content, 0, 0, .steady, true, true, 2 ^ 63 - 1⟩

/-- A directory that was just opened. It opens as a file does, but no read of it succeeds. -/
def ofDirectory : Source := { ofFile #[] with schedule := .failing }

def length? (s : Source) : Option Nat :=
  if s.lengthKnown then some s.content.size else none

def ahead (s : Source) (n : Nat) : Array UInt8 := s.content.extract s.pos (s.pos + n)

/-- Reads up to `n` octets. An interrupted call is made again until it is not. -/
def read (s : Source) (n : Nat) : Except StreamError (Array UInt8) × Source :=
  match s.schedule.resume (s.calls + 1) with
  | (call, .fails) => (.error .sourceFailure, { s with calls := call })
  | (call, .yields most) =>
    let bs := s.ahead ((most.map (min n)).getD n)
    (.ok bs, { s with pos := s.pos + bs.size, calls := call })

def seekBy (s : Source) (delta : Int) : Except StreamError Nat × Source :=
  let target := (s.pos : Int) + delta
  if ¬ s.seekable then (.error .seekFailure, s)
  else if target < 0 ∨ (s.lastPos : Int) < target then (.error .badSeek, s)
  else (.ok target.toNat, { s with pos := target.toNat })

def tell? (s : Source) : Option Nat := if s.seekable then some s.pos else none

end Source

end AudioAtoms
