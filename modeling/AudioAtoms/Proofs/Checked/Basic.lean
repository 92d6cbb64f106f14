import AudioAtoms.Proofs.Execution

/-!
# Arithmetic on machine words

A machine does not compute with natural numbers. It refuses to go below zero or beyond the width of
a word, to divide by zero, and to reach outside of a buffer. A guarded reader does every operation
of this kind by a checked one, which faults where a machine would refuse.

A guarded reader guards a plain one if it makes the same requests and the same remarks and ends with
the same result, without a fault. The rules below build such readers up from their parts.
-/
namespace AudioAtoms

inductive Fault where
  | belowZero
  | overflow
  | byZero
  | outOfRange
deriving DecidableEq, Repr

abbrev Checked := Except Fault

namespace Checked

def sub (a b : Nat) : Checked Nat := if b ≤ a then .ok (a - b) else .error .belowZero

def add (bits a b : Nat) : Checked Nat := if a + b < 2 ^ bits then .ok (a + b) else .error .overflow

def mul (bits a b : Nat) : Checked Nat := if a * b < 2 ^ bits then .ok (a * b) else .error .overflow

def div (a b : Nat) : Checked Nat := if b = 0 then .error .byZero else .ok (a / b)

def range (start stop size : Nat) : Checked Unit :=
  if start ≤ stop ∧ stop ≤ size then .ok () else .error .outOfRange

def part (bs : Bytes) (start stop : Nat) : Checked Bytes := do
  range start stop bs.length
  return (bs.drop start).take (stop - start)

def put (bs : Bytes) (index : Nat) (b : UInt8) : Checked Bytes :=
  if index < bs.length then .ok (bs.set index b) else .error .outOfRange

def copy (bs : Bytes) (start stop : Nat) (source : Bytes) : Checked Bytes := do
  range start stop bs.length
  if source.length = stop - start then return bs.take start ++ source ++ bs.drop stop
  else throw .outOfRange

variable {a b bits : Nat} {bs : Bytes}

theorem sub_ok (h : b ≤ a) : sub a b = .ok (a - b) := if_pos h

theorem add_ok (h : a + b < 2 ^ bits) : add bits a b = .ok (a + b) := if_pos h

theorem mul_ok (h : a * b < 2 ^ bits) : mul bits a b = .ok (a * b) := if_pos h

theorem div_ok (h : 0 < b) : div a b = .ok (a / b) := if_neg (Nat.ne_of_gt h)

theorem range_ok {start stop size : Nat} (h : start ≤ stop) (hs : stop ≤ size) :
    range start stop size = .ok () := if_pos ⟨h, hs⟩

theorem part_ok {start stop : Nat} (h : start ≤ stop) (hs : stop ≤ bs.length) :
    part bs start stop = .ok ((bs.drop start).take (stop - start)) := by
  rw [part, range_ok h hs]
  rfl

theorem put_ok {index : Nat} {b : UInt8} (h : index < bs.length) :
    put bs index b = .ok (bs.set index b) := if_pos h

theorem copy_ok {start stop : Nat} {source : Bytes} (h : start ≤ stop) (hs : stop ≤ bs.length)
    (hlen : source.length = stop - start) :
    copy bs start stop source = .ok (bs.take start ++ source ++ bs.drop stop) := by
  rw [copy, range_ok h hs]
  exact if_pos hlen

def filled (bs : Bytes) (size : Nat) : Bytes := bs ++ List.replicate (size - bs.length) 0

/-- The front of a buffer that was filled in part: what came, and zeros behind it. -/
theorem part_filled {size n : Nat} (hbs : bs.length ≤ n) (hn : n ≤ size) :
    part (filled bs size) 0 n = .ok (filled bs n) := by
  have hlen : n ≤ (filled bs size).length := by
    rw [filled, List.length_append, List.length_replicate]
    omega
  rw [part_ok (Nat.zero_le _) hlen, Nat.sub_zero, List.drop_zero, filled, List.take_append,
    List.take_of_length_le hbs, List.take_replicate, Nat.min_eq_left (by omega)]
  rfl

/-- What came into a buffer. -/
theorem part_filled_length {size : Nat} (hbs : bs.length ≤ size) :
    part (filled bs size) 0 bs.length = .ok bs := by
  rw [part_filled (Nat.le_refl _) hbs, filled, Nat.sub_self, List.replicate_zero, List.append_nil]

theorem ok_bind {α β : Type} (x : α) (f : α → Checked β) : ((.ok x : Checked α) >>= f) = f x := rfl

end Checked

inductive Faulty (ε : Type) where
  | fault (f : Fault)
  | error (e : ε)

def Faulty.map {ε ε' : Type} (f : ε → ε') : Faulty ε → Faulty ε'
  | fault x => fault x
  | error e => error (f e)

/-- What a guarded reader ends with and what a plain one does: the same result, which is a good
one, or the same error. -/
inductive Sound {ε α : Type} (Good : α → Prop) : Except (Faulty ε) α → Except ε α → Prop
  | ok (a : α) (ha : Good a) : Sound Good (.ok a) (.ok a)
  | error (e : ε) : Sound Good (.error (.error e)) (.error e)

/-- What an answer to a request is like, whatever stream gives it. -/
def Request.Proper {bounded : Bool} : (q : Request bounded) → q.Answer → Prop
  | .exactly n, r => ∀ bs, r = .ok bs → bs.length = n
  | .upTo n, r => ∀ bs, r = .ok bs → bs.length ≤ n
  | .skip _, _ => True
  | .position, pos => pos < 2 ^ 63
  | .remaining _, n => n < 2 ^ 64

namespace Scan
variable {bounded : Bool} {α β γ δ : Type} {R : α → β → Prop} {S : γ → δ → Prop}

/-- Two scans make the same requests and the same remarks, and end with related results as long as
the answers are proper. -/
inductive Parallel (R : α → β → Prop) : Scan bounded α → Scan bounded β → Prop
  | done (a : α) (b : β) (h : R a b) : Parallel R (.done a) (.done b)
  | note (m : Notice) (p : Scan bounded α) (q : Scan bounded β) (h : Parallel R p q) :
      Parallel R (.note m p) (.note m q)
  | ask (r : Request bounded) (next : r.Answer → Scan bounded α)
      (next' : r.Answer → Scan bounded β)
      (h : ∀ x, r.Proper x → Parallel R (next x) (next' x)) :
      Parallel R (.ask r next) (.ask r next')

theorem Parallel.bind {p : Scan bounded α} {q : Scan bounded β} {f : α → Scan bounded γ}
    {g : β → Scan bounded δ} (hp : p.Parallel R q) (hf : ∀ a b, R a b → (f a).Parallel S (g b)) :
    (p.bind f).Parallel S (q.bind g) := by
  induction hp with
  | done a b h => exact hf a b h
  | note m p q _ ih => exact .note m _ _ ih
  | ask r next next' _ ih => exact .ask r _ _ ih

end Scan

namespace Read
variable {bounded : Bool} {α β : Type} {Good : α → Prop} {Good' : β → Prop}

structure Yields (p : Read bounded α) (Good : α → Prop) : Prop where
  run : p.run.Parallel (fun r s => r = s ∧ ∀ a, r = .ok a → Good a) p.run

theorem yields_pure {a : α} (ha : Good a) : (pure a : Read bounded α).Yields Good :=
  ⟨.done _ _ ⟨rfl, fun _ h => Except.ok.inj h ▸ ha⟩⟩

theorem Yields.bind {p : Read bounded α} {f : α → Read bounded β} (hp : p.Yields Good)
    (hf : ∀ a, Good a → (f a).Yields Good') : (p >>= f).Yields Good' := by
  constructor
  rw [run_bind]
  refine hp.run.bind ?_
  rintro (e | a) _ ⟨rfl, ha⟩
  · exact .done _ _ ⟨rfl, nofun⟩
  · exact (hf a (ha a rfl)).run

theorem yields_exactly (n : Nat) : (exactly n : Read bounded Bytes).Yields (·.length = n) :=
  ⟨.ask _ _ _ fun r hr => .done r r ⟨rfl, hr⟩⟩

theorem yields_upTo (n : Nat) : (upTo n : Read bounded Bytes).Yields (·.length ≤ n) :=
  ⟨.ask _ _ _ fun r hr => .done r r ⟨rfl, hr⟩⟩

theorem yields_skip (n : Nat) : (skip n : Read bounded Unit).Yields fun _ => True :=
  ⟨.ask _ _ _ fun r _ => .done r r ⟨rfl, fun _ _ => trivial⟩⟩

theorem yields_position : (position : Read bounded Nat).Yields (· < 2 ^ 63) :=
  ⟨.ask _ _ _ fun _ hr => .done _ _ ⟨rfl, fun _ h => Except.ok.inj h ▸ hr⟩⟩

theorem yields_remaining : remaining.Yields (· < 2 ^ 64) :=
  ⟨.ask _ _ _ fun _ hr => .done _ _ ⟨rfl, fun _ h => Except.ok.inj h ▸ hr⟩⟩

theorem yields_note (m : Notice) : (note m : Read bounded Unit).Yields fun _ => True :=
  ⟨.note m _ _ (.done _ _ ⟨rfl, fun _ _ => trivial⟩)⟩

theorem yields_number (n : Nat) : (number n : Read bounded Nat).Yields (· < 256 ^ n) := by
  refine (yields_exactly n).bind fun bs hbs => yields_pure ?_
  have hlt := Bytes.toNat_lt bs
  rw [hbs] at hlt
  exact hlt

theorem yields_code : (code : Read bounded Code).Yields fun _ => True :=
  (yields_exactly 4).bind fun _ _ => yields_pure trivial

end Read

abbrev Guarded (ε : Type) (bounded : Bool) := ExceptT (Faulty ε) (Scan bounded)

namespace Guarded
variable {ε : Type} {bounded : Bool} {α β : Type}

def check (c : Checked α) : Guarded ε bounded α := ExceptT.mk (.done (c.mapError .fault))

def ofRead (p : Read bounded α) : Guarded StreamError bounded α :=
  ExceptT.mk (p.run.bind fun r => .done (r.mapError .error))

def note (m : Notice) : Guarded ε bounded Unit := ExceptT.mk (.note m (.done (.ok ())))

theorem run_bind {E : Type} (p : ExceptT E (Scan bounded) α) (f : α → ExceptT E (Scan bounded) β) :
    (p >>= f).run = p.run.bind fun r =>
      match r with
      | .ok a => (f a).run
      | .error e => .done (.error e) := by
  rw [ExceptT.run_bind, Scan.bind_eq]
  congr 1
  funext r
  cases r <;> rfl

theorem run_lift {E : Type} (p : Scan bounded α) :
    (ExceptT.lift p : ExceptT E (Scan bounded) α).run = p.bind fun a => .done (.ok a) := rfl

/-- The guarded reader makes the requests of the plain one and ends with its result, which is a
good one. -/
structure Guards (p : Guarded ε bounded α) (q : ExceptT ε (Scan bounded) α) (Good : α → Prop) :
    Prop where
  run : p.run.Parallel (Sound Good) q.run

variable {Good : α → Prop} {Good' : β → Prop}

theorem guards_pure {a : α} (ha : Good a) : (pure a : Guarded ε bounded α).Guards (pure a) Good :=
  ⟨.done _ _ (.ok a ha)⟩

theorem guards_throw (e : ε) : (throw (.error e) : Guarded ε bounded α).Guards (throw e) Good :=
  ⟨.done _ _ (.error e)⟩

theorem Guards.bind {p : Guarded ε bounded α} {q : ExceptT ε (Scan bounded) α}
    {f : α → Guarded ε bounded β} {g : α → ExceptT ε (Scan bounded) β} (hp : p.Guards q Good)
    (hf : ∀ a, Good a → (f a).Guards (g a) Good') : (p >>= f).Guards (q >>= g) Good' := by
  constructor
  rw [run_bind, run_bind]
  refine hp.run.bind ?_
  rintro _ _ (⟨a, ha⟩ | e)
  · exact (hf a ha).run
  · exact .done _ _ (.error e)

/-- An operation that does not fault leaves no trace. -/
theorem guards_check {c : Checked α} {a : α} (hc : c = .ok a) {f : α → Guarded ε bounded β}
    {q : ExceptT ε (Scan bounded) β} (hf : (f a).Guards q Good') :
    (check c >>= f).Guards q Good' := by
  have hrun : (check c >>= f) = f a := by
    rw [hc]
    exact pure_bind a f
  rw [hrun]
  exact hf

theorem guards_note (m : Notice) :
    (note m : Guarded ε bounded Unit).Guards (ExceptT.mk (.note m (.done (.ok ()))))
      fun _ => True :=
  ⟨.note m _ _ (.done _ _ (.ok () trivial))⟩

theorem guards_ofRead {p : Read bounded α} (hp : p.Yields Good) : (ofRead p).Guards p Good := by
  constructor
  have hrun := hp.run.bind (f := fun r => .done (r.mapError Faulty.error)) (g := .done)
    (S := Sound Good) ?_
  · rw [Scan.bind_done_right] at hrun
    exact hrun
  · rintro (e | a) _ ⟨rfl, ha⟩
    · exact .done _ _ (.error e)
    · exact .done _ _ (.ok a (ha a rfl))

end Guarded

structure Audio.Sized (a : Audio) : Prop where
  samples : a.samples < 2 ^ 64
  sampleRate : a.sampleRate < 2 ^ 32
  bytes : a.bytes < 2 ^ 64

def Arena.Sized (a : Arena) : Prop := a.used + a.remaining < 2 ^ 63

structure Collected.Sized (c : Collected) : Prop where
  audio : c.track.audio.Sized
  arena : c.arena.Sized

namespace Collect
variable {ε : Type} {bounded : Bool} {α β : Type} {Good : α → Prop} {Good' : β → Prop}

def check (c : Checked α) : Collect (Faulty ε) bounded α :=
  ofFun fun s => .done (c.mapError .fault, s)

def modifyAudioChecked (f : Audio → Checked Audio) : Collect (Faulty ε) bounded Unit := do
  let a ← check (f (← get).track.audio)
  modifyAudio fun _ => a

def readGuarded (p : Guarded ε bounded α) : Collect (Faulty ε) bounded α :=
  ofFun fun c => p.run.bind fun r => .done (r, c)

/-- From anything that fits into memory the guarded reader makes the requests of the plain one, and
ends with its result and with what it has collected, which fits into memory again. -/
structure Guards (p : Collect (Faulty ε) bounded α) (q : Collect ε bounded α) (Good : α → Prop) :
    Prop where
  run : ∀ c : Collected, c.Sized →
    (p.runFrom c).Parallel (fun r s => Sound Good r.1 s.1 ∧ r.2 = s.2 ∧ r.2.Sized) (q.runFrom c)

theorem guards_pure {a : α} (ha : Good a) :
    (pure a : Collect (Faulty ε) bounded α).Guards (pure a) Good :=
  ⟨fun _ hc => .done _ _ ⟨.ok a ha, rfl, hc⟩⟩

theorem guards_throw (e : ε) :
    (throw (.error e) : Collect (Faulty ε) bounded α).Guards (throw e) Good :=
  ⟨fun _ hc => .done _ _ ⟨.error e, rfl, hc⟩⟩

theorem Guards.bind {p : Collect (Faulty ε) bounded α} {q : Collect ε bounded α}
    {f : α → Collect (Faulty ε) bounded β} {g : α → Collect ε bounded β} (hp : p.Guards q Good)
    (hf : ∀ a, Good a → (f a).Guards (g a) Good') : (p >>= f).Guards (q >>= g) Good' := by
  constructor
  intro c hc
  rw [runFrom_bind, runFrom_bind]
  refine (hp.run c hc).bind ?_
  rintro ⟨_, d⟩ ⟨_, _⟩ ⟨⟨a, ha⟩ | e, rfl, hd⟩
  · exact (hf a ha).run d hd
  · exact .done _ _ ⟨.error e, rfl, hd⟩

theorem guards_check {c : Checked α} {a : α} (hc : c = .ok a) {f : α → Collect (Faulty ε) bounded β}
    {q : Collect ε bounded β} (hf : (f a).Guards q Good') :
    (check c >>= f).Guards q Good' := by
  constructor
  intro d hd
  rw [hc, runFrom_bind]
  exact hf.run d hd

theorem guards_note (m : Notice) :
    (note m : Collect (Faulty ε) bounded Unit).Guards (note m) fun _ => True :=
  ⟨fun _ hc => .note m _ _ (.done _ _ ⟨.ok () trivial, rfl, hc⟩)⟩

theorem guards_noteIfAny (m : Option Notice) :
    (noteIfAny m : Collect (Faulty ε) bounded Unit).Guards (noteIfAny m) fun _ => True := by
  cases m with
  | none => exact guards_pure trivial
  | some m => exact guards_note m

theorem guards_get :
    (get : Collect (Faulty ε) bounded Collected).Guards get Collected.Sized :=
  ⟨fun c hc => .done _ _ ⟨.ok c hc, rfl, hc⟩⟩

theorem guards_modify {f : Collected → Collected} (hf : ∀ c : Collected, c.Sized → (f c).Sized) :
    (modify f : Collect (Faulty ε) bounded Unit).Guards (modify f) fun _ => True :=
  ⟨fun c hc => .done _ _ ⟨.ok () trivial, rfl, hf c hc⟩⟩

theorem guards_getTags :
    (getTags : Collect (Faulty ε) bounded Tags).Guards getTags fun _ => True :=
  guards_get.bind fun _ _ => guards_pure trivial

theorem guards_modifyTags (f : Tags → Tags) :
    (modifyTags f : Collect (Faulty ε) bounded Unit).Guards (modifyTags f) fun _ => True :=
  guards_modify fun _ hc => ⟨⟨hc.audio.samples, hc.audio.sampleRate, hc.audio.bytes⟩, hc.arena⟩

theorem guards_modifyAudio {f : Audio → Audio} (hf : ∀ a : Audio, a.Sized → (f a).Sized) :
    (modifyAudio f : Collect (Faulty ε) bounded Unit).Guards (modifyAudio f) fun _ => True :=
  guards_modify fun _ hc => ⟨hf _ hc.audio, hc.arena⟩

theorem guards_modifyAudioChecked {k : Audio → Checked Audio} {f : Audio → Audio}
    (hk : ∀ a : Audio, a.Sized → k a = .ok (f a)) (hf : ∀ a : Audio, a.Sized → (f a).Sized) :
    (modifyAudioChecked k : Collect (Faulty ε) bounded Unit).Guards (modifyAudio f)
      fun _ => True := by
  -- The rule for `get` forgets that the audio is that of the state, which the change needs.
  constructor
  intro c hc
  rw [modifyAudioChecked, runFrom_bind, runFrom_get, Scan.bind_done]
  dsimp only
  rw [hk _ hc.audio, runFrom_bind]
  exact .done _ _ ⟨.ok () trivial, rfl, hf _ hc.audio, hc.arena⟩

theorem guards_set {c : Collected} (hc : c.Sized) :
    (set c : Collect (Faulty ε) bounded Unit).Guards (set c) fun _ => True :=
  ⟨fun _ _ => .done _ _ ⟨.ok () trivial, rfl, hc⟩⟩

theorem guards_modifyArena {f : Arena → Arena} (hf : ∀ a : Arena, a.Sized → (f a).Sized) :
    (modifyArena f : Collect (Faulty ε) bounded Unit).Guards (modifyArena f) fun _ => True :=
  guards_modify fun _ hc => ⟨hc.audio, hf _ hc.arena⟩

theorem guards_keep {kept : Except Arena.Refusal (String × Arena)}
    (hkept : ∀ text a, kept = .ok (text, a) → a.Sized) :
    (keep kept : Collect (Faulty ε) bounded (Option String)).Guards (keep kept) fun _ => True := by
  cases kept with
  | ok value =>
    exact (guards_modifyArena fun _ _ => hkept value.1 value.2 rfl).bind fun _ _ =>
      guards_pure trivial
  | error refusal => exact (guards_noteIfAny _).bind fun _ _ => guards_pure trivial

theorem guards_readGuarded {p : Guarded StreamError bounded α} {q : Read bounded α}
    (hp : p.Guards q Good) : (readGuarded p).Guards (Collect.read q) Good := by
  constructor
  intro c hc
  refine hp.run.bind ?_
  intro r s hr
  exact .done _ _ ⟨hr, rfl, hc⟩

end Collect

end AudioAtoms
