import AudioAtoms.Proofs.Payload

/-!
# Readers that stop at a failed request

The first request of a payload reader that fails is its last one: the reader ends with that error,
and it has no errors of its own. Descriptors are the exception. They turn the error into a notice,
but behind them nothing more is asked for.
-/
namespace AudioAtoms

def StreamError.of? {α : Type} : Except StreamError α → Option StreamError
  | .error e => some e
  | .ok _ => none

theorem StreamError.of?_eq_some {α : Type} {r : Except StreamError α} {e : StreamError} :
    StreamError.of? r = some e ↔ r = .error e := by
  cases r with
  | ok a => exact ⟨nofun, nofun⟩
  | error e' => exact ⟨fun h => congrArg _ (Option.some.inj h), fun h => congrArg _ (Except.error.inj h)⟩

def Request.failure? {bounded : Bool} : (q : Request bounded) → q.Answer → Option StreamError
  | .exactly _, r | .upTo _, r | .skip _, r => StreamError.of? r
  | .position, _ | .remaining _, _ => none

/-- Behind a request that fails only an ending is left, and without one the result is good. -/
inductive Scan.Stops {bounded : Bool} {α : Type} (Ends : StreamError → Scan bounded α → Prop)
    (Good : α → Prop) : Scan bounded α → Prop
  | done (a : α) (ha : Good a) : Stops Ends Good (.done a)
  | note (m : Notice) (rest : Scan bounded α) (hm : m ≠ .descriptorsCut .underrun)
      (hrest : Stops Ends Good rest) : Stops Ends Good (.note m rest)
  | ask (q : Request bounded) (next : q.Answer → Scan bounded α)
      (hfail : ∀ r e, q.failure? r = some e → Ends e (next r))
      (hnext : ∀ r, q.failure? r = none → Stops Ends Good (next r)) : Stops Ends Good (.ask q next)

namespace Scan.Stops
variable {bounded : Bool} {α β : Type} {Ends : StreamError → Scan bounded α → Prop}
  {Good : α → Prop} {Ends' : StreamError → Scan bounded β → Prop} {Good' : β → Prop}

theorem bind {p : Scan bounded α} {f : α → Scan bounded β} (hp : p.Stops Ends Good)
    (hends : ∀ e t, Ends e t → Ends' e (t.bind f)) (hf : ∀ a, Good a → (f a).Stops Ends' Good') :
    (p.bind f).Stops Ends' Good' := by
  induction hp with
  | done a ha => exact hf a ha
  | note m rest hm _ ih => exact .note m _ hm ih
  | ask q next hfail _ ih =>
    exact .ask q _ (fun r e hr => hends e _ (hfail r e hr)) (fun r hr => ih r hr)

theorem mono {Ends₂ : StreamError → Scan bounded α → Prop} {Good₂ : α → Prop}
    {p : Scan bounded α} (hp : p.Stops Ends Good) (hends : ∀ e t, Ends e t → Ends₂ e t)
    (hgood : ∀ a, Good a → Good₂ a) : p.Stops Ends₂ Good₂ := by
  induction hp with
  | done a ha => exact .done a (hgood a ha)
  | note m rest hm _ ih => exact .note m rest hm ih
  | ask q next hfail _ ih => exact .ask q next (fun r e hr => hends e _ (hfail r e hr)) ih

end Scan.Stops

namespace Read
variable {bounded : Bool} {α β : Type}

/-- The reader fails by the first failed request and in no other way. -/
def Strict (p : Read bounded α) : Prop :=
  p.run.Stops (fun e t => t = .done (.error e)) (fun r => ∃ a, r = .ok a)

/-- The reader may also end by a remark on the failed request. -/
def Watchful (p : Read bounded α) : Prop :=
  p.run.Stops (fun e t => t = .done (.error e) ∨ ∃ a, t = .note (.descriptorsCut e) (.done (.ok a)))
    (fun r => ∃ a, r = .ok a)

theorem Strict.watchful {p : Read bounded α} (hp : p.Strict) : p.Watchful :=
  Scan.Stops.mono hp (fun _ _ h => .inl h) (fun _ h => h)

theorem strict_pure (a : α) : Strict (pure a : Read bounded α) := .done _ ⟨a, rfl⟩

theorem strict_note {m : Notice} (hm : m ≠ .descriptorsCut .underrun) :
    Strict (note m : Read bounded Unit) :=
  .note m _ hm (.done _ ⟨(), rfl⟩)

theorem Strict.bind {p : Read bounded α} {f : α → Read bounded β} (hp : p.Strict)
    (hf : ∀ a, (f a).Strict) : (p >>= f).Strict := by
  rw [Strict, run_bind]
  refine Scan.Stops.bind hp ?_ ?_
  · rintro e t rfl
    rfl
  · rintro r ⟨a, rfl⟩
    exact hf a

theorem Strict.bind_watchful {p : Read bounded α} {f : α → Read bounded β} (hp : p.Strict)
    (hf : ∀ a, (f a).Watchful) : (p >>= f).Watchful := by
  rw [Watchful, run_bind]
  refine Scan.Stops.bind hp ?_ ?_
  · rintro e t rfl
    exact .inl rfl
  · rintro r ⟨a, rfl⟩
    exact hf a

/-- A single request whose answer is the result. -/
theorem strict_ask (q : Request bounded) (result : q.Answer → Except StreamError α)
    (h : ∀ r, StreamError.of? (result r) = q.failure? r) :
    Strict (ofScan (.ask q fun r => .done (result r))) := by
  refine .ask q _ ?_ ?_
  · intro r e hr
    exact congrArg _ (StreamError.of?_eq_some.mp ((h r).trans hr))
  · intro r hr
    have hnone := (h r).trans hr
    refine .done _ ?_
    cases hresult : result r with
    | ok a => exact ⟨a, rfl⟩
    | error e =>
      rw [hresult] at hnone
      cases hnone

theorem strict_exactly (n : Nat) : Strict (exactly n : Read bounded Bytes) :=
  strict_ask (.exactly n) id fun _ => rfl

theorem strict_upTo (n : Nat) : Strict (upTo n : Read bounded Bytes) :=
  strict_ask (.upTo n) id fun _ => rfl

theorem strict_skip (n : Nat) : Strict (skip n : Read bounded Unit) :=
  strict_ask (.skip n) id fun _ => rfl

theorem strict_position : Strict (position : Read bounded Nat) :=
  strict_ask .position .ok fun _ => rfl

theorem strict_remaining : Strict remaining :=
  strict_ask (.remaining rfl) .ok fun _ => rfl

theorem strict_number (n : Nat) : Strict (number n : Read bounded Nat) :=
  (strict_exactly n).bind fun _ => strict_pure _

theorem strict_code : Strict (code : Read bounded Code) :=
  (strict_exactly 4).bind fun _ => strict_pure _

end Read

section Readers
variable {bounded : Bool}
open Read

theorem Leaf.strict_handler : Strict (Leaf.handler : Read bounded Handler) :=
  (strict_skip 8).bind fun _ => strict_code.bind fun _ =>
    (strict_note (by nofun)).bind fun _ => strict_pure _

theorem Leaf.strict_brand : Strict (Leaf.brand : Read bounded Code) :=
  strict_code.bind fun _ => (strict_note (by nofun)).bind fun _ => strict_pure _

theorem Leaf.strict_firstChapter : Strict (Leaf.firstChapter : Read bounded (Option Nat)) := by
  refine (strict_skip 8).bind fun _ => (strict_number 1).bind fun count => ?_
  by_cases h : count = 0
  · rw [if_pos h]
    exact strict_pure _
  · rw [if_neg h]
    exact (strict_number 8).bind fun _ => strict_pure _

theorem SampleRun.strict_readMany (n : Nat) (runs : List SampleRun) :
    Strict (SampleRun.readMany n runs : Read bounded (List SampleRun)) := by
  induction n generalizing runs with
  | zero => exact strict_pure _
  | succ n ih => exact (strict_number 4).bind fun _ => (strict_number 4).bind fun _ => ih _

theorem SampleRun.strict_readTable (dataSize : Nat) :
    Strict (SampleRun.readTable dataSize : Read bounded (List SampleRun)) := by
  refine (strict_skip 4).bind fun _ => (strict_number 4).bind fun declared => ?_
  by_cases h : SampleRun.capacity dataSize < declared
  · rw [if_pos h]
    exact (strict_note (by nofun)).bind fun _ => SampleRun.strict_readMany _ _
  · rw [if_neg h]
    exact SampleRun.strict_readMany _ _

theorem Header.strict_read (budget : Nat) : Strict (Header.read budget : Read bounded Header) := by
  refine (strict_number 4).bind fun declared => strict_code.bind fun code => ?_
  by_cases h0 : declared = 0
  · rw [if_pos h0]
    exact strict_pure _
  · rw [if_neg h0]
    by_cases h1 : declared = 1
    · rw [if_pos h1]
      exact (strict_number 8).bind fun _ => (strict_note (by nofun)).bind fun _ => strict_pure _
    · rw [if_neg h1]
      by_cases hs : declared < Header.minSize
      · rw [if_pos hs]
        exact (strict_note (by nofun)).bind fun _ => strict_pure _
      · rw [if_neg hs]
        exact strict_pure _

end Readers

namespace Descriptor
open Read

def readSpecific : Read true (Option DecoderConfig) := do
  let tag ← Read.number 1
  if tag ≠ configTag then
    Read.note (.noDecoderSpecific tag.toUInt8)
    return none
  let size := min (min (← length) (← Read.remaining)) DecoderConfig.maxSize
  let bs ← Read.upTo size
  return some (.ofBytes (bs ++ List.replicate (size - bs.length) 0))

def readDecoder : Read true (Option DecoderConfig) := do
  let tag ← Read.number 1
  if tag ≠ decoderTag then
    Read.note (.noDecoderConfig tag.toUInt8)
    return none
  if (← length) < 13 then return none
  Read.skip 13
  readSpecific

def readStream (size : Nat) : Read true (Option DecoderConfig) := do
  if size < 20 then return none
  Read.skip 3
  readDecoder

theorem config_eq :
    config = (do
      Read.skip 4
      if (← Read.number 1) = streamTag then readStream (← length)
      else
        Read.skip 2
        readDecoder) := rfl

theorem strict_lengthFrom (n value : Nat) : Strict (lengthFrom n value) := by
  induction n generalizing value with
  | zero => exact strict_pure _
  | succ n ih =>
    refine (strict_number 1).bind fun octet => ?_
    by_cases h : octet < 128
    · simp only [if_pos h]
      exact strict_pure _
    · simp only [if_neg h]
      refine strict_remaining.bind fun left => ?_
      by_cases hleft : left = 0
      · rw [if_pos hleft]
        exact strict_pure _
      · rw [if_neg hleft]
        exact ih _

theorem strict_length : Strict length := strict_lengthFrom 4 0

theorem strict_readSpecific : Strict readSpecific := by
  refine (strict_number 1).bind fun tag => ?_
  by_cases h : tag ≠ configTag
  · rw [if_pos h]
    exact (strict_note (by nofun)).bind fun _ => strict_pure _
  · rw [if_neg h]
    exact strict_length.bind fun _ => strict_remaining.bind fun _ =>
      (strict_upTo _).bind fun _ => strict_pure _

theorem strict_readDecoder : Strict readDecoder := by
  refine (strict_number 1).bind fun tag => ?_
  by_cases h : tag ≠ decoderTag
  · rw [if_pos h]
    exact (strict_note (by nofun)).bind fun _ => strict_pure _
  · rw [if_neg h]
    refine strict_length.bind fun size => ?_
    by_cases hsize : size < 13
    · rw [if_pos hsize]
      exact strict_pure _
    · rw [if_neg hsize]
      exact (strict_skip 13).bind fun _ => strict_readSpecific

theorem strict_config : Strict config := by
  rw [config_eq]
  refine (strict_skip 4).bind fun _ => (strict_number 1).bind fun tag => ?_
  by_cases h : tag = streamTag
  · rw [if_pos h]
    refine strict_length.bind fun size => ?_
    unfold readStream
    by_cases hsize : size < 20
    · rw [if_pos hsize]
      exact strict_pure _
    · rw [if_neg hsize]
      exact (strict_skip 3).bind fun _ => strict_readDecoder
  · rw [if_neg h]
    exact (strict_skip 2).bind fun _ => strict_readDecoder

end Descriptor

section Windows
variable {inner : Bool} {α : Type}

/-- A strict reader in a window fails by a request that the stream behind the window fails, or by
one that the window refuses. -/
theorem Scan.Stops.within {p : Scan true (Except StreamError α)}
    (hp : p.Stops (fun e t => t = .done (.error e)) (fun r => ∃ a, r = .ok a)) (w : Window) :
    (p.within w : Scan inner _).Stops (fun e t => ∃ v, t = .done (.error e, v))
      (fun r => (∃ a, r.1 = .ok a) ∨ r.1 = .error .outOfBounds) := by
  induction hp generalizing w with
  | done r hr => exact .done _ (.inl hr)
  | note m rest hm _ ih => exact .note m _ hm (ih w)
  | ask q next hfail _ ih =>
    have hends (r : q.Answer) (e : StreamError) (v : Window) (hr : q.failure? r = some e) :
        (next r).within v = (.done (.error e, v) : Scan inner _) := by
      rw [hfail r e hr]
      rfl
    rw [Scan.within]
    cases q with
    | exactly n | skip n =>
      rw [Window.answer]
      by_cases h : w.left < n
      · rw [if_pos h, Scan.bind_done, hends (.error .outOfBounds) .outOfBounds _ rfl]
        exact .done _ (.inr rfl)
      · rw [if_neg h]
        exact .ask _ _ (fun r e hr => ⟨_, hends r e _ hr⟩) (fun r hr => ih r hr _)
    | upTo n =>
      refine .ask _ _ ?_ ?_
      · rintro (e' | bs) e hr <;> cases hr
        exact ⟨w, hends (.error e') e' w rfl⟩
      · rintro (e | bs) hr
        · cases hr
        · exact ih (.ok bs) rfl _
    | position =>
      refine .ask _ _ ?_ ?_
      · intro r e hr
        cases hr
      · exact fun r _ => ih r rfl _
    | remaining h => exact ih w.left rfl w

end Windows

namespace SampleEntry
open Read

theorem strict_inner {bounded : Bool} (dataSize : Nat) :
    Strict (inner? dataSize : Read bounded (Option Header)) := by
  unfold inner?
  by_cases h : dataSize - fixedSize < Header.minSize
  · rw [if_pos h]
    exact strict_pure _
  · rw [if_neg h]
    exact (strict_skip _).bind fun _ => (Header.strict_read _).bind fun _ => strict_pure _

theorem strict_alac {bounded : Bool} (dataSize : Nat) :
    Strict (alac dataSize : Read bounded (Option Nat)) := by
  refine (strict_inner dataSize).bind fun found => ?_
  split
  · split
    · exact strict_pure _
    · exact (strict_skip _).bind fun _ => (strict_number 4).bind fun _ => strict_pure _
  · exact strict_pure _

theorem watchful_stream {bounded : Bool} {α : Type} (size : Nat) (f : ElementaryStream → α) :
    Watchful (do return f (← Read.lift (ElementaryStream.read size)) : Read bounded α) := by
  rw [Watchful, run_bind, run_lift, ElementaryStream.read, Scan.bind_eq, Scan.bind_assoc,
    Scan.bind_assoc]
  refine (Scan.Stops.within Descriptor.strict_config (.ofSize size)).bind ?_ ?_
  · rintro e t ⟨w, rfl⟩
    exact .inr ⟨_, rfl⟩
  · rintro ⟨r, w⟩ (⟨config, rfl⟩ | rfl)
    · exact .done _ ⟨_, rfl⟩
    · exact .note _ _ (by simp) (.done _ ⟨_, rfl⟩)

theorem watchful_aac {bounded : Bool} (dataSize : Nat) :
    Watchful (aac dataSize : Read bounded (Option ElementaryStream)) := by
  refine (strict_inner dataSize).bind_watchful fun found => ?_
  split
  · exact watchful_stream _ some
  · exact (strict_pure _).watchful

end SampleEntry

namespace Collect
variable {bounded : Bool} {α β : Type}

def Strict (p : Collect StreamError bounded α) : Prop :=
  ∀ c, (p.runFrom c).Stops (fun e t => ∃ d, t = .done (.error e, d)) (fun r => ∃ a, r.1 = .ok a)

theorem strict_pure (a : α) : Strict (pure a : Collect StreamError bounded α) :=
  fun _ => .done _ ⟨a, rfl⟩

theorem Strict.bind {p : Collect StreamError bounded α} {f : α → Collect StreamError bounded β}
    (hp : p.Strict) (hf : ∀ a, (f a).Strict) : (p >>= f).Strict := by
  intro c
  rw [runFrom_bind]
  refine (hp c).bind ?_ ?_
  · rintro e t ⟨d, rfl⟩
    exact ⟨d, rfl⟩
  · rintro ⟨r, d⟩ ⟨a, rfl⟩
    exact hf a d

theorem strict_read {p : Read bounded α} (hp : p.Strict) : Strict (read p) := by
  intro c
  rw [runFrom_read]
  refine Scan.Stops.bind hp ?_ ?_
  · rintro e t rfl
    exact ⟨c, rfl⟩
  · exact fun r hr => .done _ hr

theorem strict_note {m : Notice} (hm : m ≠ .descriptorsCut .underrun) :
    Strict (note m : Collect StreamError bounded Unit) :=
  fun _ => .note m _ hm (.done _ ⟨(), rfl⟩)

theorem strict_get : Strict (get : Collect StreamError bounded Collected) :=
  fun c => .done _ ⟨c, rfl⟩

theorem strict_modify (f : Collected → Collected) :
    Strict (modify f : Collect StreamError bounded Unit) :=
  fun _ => .done _ ⟨(), rfl⟩

theorem strict_getTags : Strict (getTags : Collect StreamError bounded Tags) :=
  strict_get.bind fun _ => strict_pure _

theorem strict_noteIfAny {m : Option Notice} (hm : m ≠ some (.descriptorsCut .underrun)) :
    Strict (noteIfAny m : Collect StreamError bounded Unit) := by
  cases m with
  | none => exact strict_pure ()
  | some m => exact strict_note fun h => hm (congrArg some h)

theorem strict_keep (kept : Except Arena.Refusal (String × Arena)) :
    Strict (keep kept : Collect StreamError bounded (Option String)) := by
  cases kept with
  | ok value => exact (strict_modify _).bind fun _ => strict_pure _
  | error refusal =>
    refine (strict_noteIfAny ?_).bind fun _ => strict_pure _
    cases refusal <;> nofun

end Collect

namespace TagValue
open Read

theorem strict_read (most : Nat) : Strict (TagValue.read most) := by
  refine strict_remaining.bind fun left => ?_
  by_cases h : left < offset
  · rw [if_pos h]
    exact strict_pure _
  · rw [if_neg h]
    exact (strict_skip _).bind fun _ => strict_remaining.bind fun _ =>
      (strict_upTo _).bind fun _ => strict_pure _

end TagValue

namespace ReadTag
open Collect

theorem strict_name : Read.Strict name :=
  (Read.strict_number 4).bind fun _ => Read.strict_remaining.bind fun _ =>
    (Read.strict_skip _).bind fun _ => (Read.strict_number 4).bind fun _ =>
      (Read.strict_skip 8).bind fun _ => Read.strict_remaining.bind fun _ =>
        (Read.strict_upTo _).bind fun _ => (Read.strict_skip _).bind fun _ => Read.strict_pure _

theorem strict_value (most : Nat) : Strict (Collect.read (TagValue.read most)) :=
  Collect.strict_read (TagValue.strict_read most)

theorem strict_valueIntoArena : Strict valueIntoArena :=
  strict_get.bind fun _ => (strict_value _).bind fun _ =>
    (strict_modify _).bind fun _ => strict_pure _

theorem strict_text (o : Options) (field : TextField) : Strict (text o field) := by
  refine strict_valueIntoArena.bind fun bs => strict_getTags.bind fun tags => ?_
  split
  · exact strict_get.bind fun _ => (strict_keep _).bind fun _ => strict_modify _
  · exact strict_pure _

theorem strict_genre : Strict genre := by
  refine (strict_value 2).bind fun bs => strict_getTags.bind fun tags => ?_
  split
  · exact strict_modify _
  · exact strict_pure _

theorem strict_numbering (field : NumberField) : Strict (numbering field) := by
  refine (strict_value 6).bind fun bs => strict_getTags.bind fun tags => ?_
  split
  · refine (strict_modify _).bind fun _ => ?_
    split
    · exact strict_get.bind fun _ => (strict_keep _).bind fun _ => strict_modify _
    · exact strict_pure _
  · exact strict_pure _

theorem strict_cover : Strict cover := by
  refine strict_getTags.bind fun tags => ?_
  split
  · refine (Collect.strict_read Read.strict_position).bind fun pos =>
      (Collect.strict_read Read.strict_remaining).bind fun size => (strict_value 8).bind fun bs => ?_
    split
    · exact strict_modify _
    · exact strict_pure _
  · exact strict_pure _

theorem strict_gain (o : Options) (key : String) : Strict (gain o key) := by
  refine strict_valueIntoArena.bind fun bs => strict_get.bind fun c => ?_
  split
  · refine strict_getTags.bind fun tags => (strict_modify _).bind fun _ => strict_noteIfAny ?_
    cases tags.gain.offer key _ <;> nofun
  · exact strict_pure _

theorem strict_freeform (o : Options) : Strict (freeform o) := by
  refine (Collect.strict_read strict_name).bind fun key => ?_
  split
  · exact strict_text o _
  · exact (strict_value _).bind fun _ => (strict_modify _).bind fun _ => strict_note (by nofun)
  · exact strict_text o _
  · exact strict_text o _
  · exact strict_gain o key

theorem strict_readTag (o : Options) (kind : Kind) : Strict (ReadTag.read o kind) := by
  cases kind with
  | title | artist | albumArtist | grouping | album | composer | comment | customGenre =>
    exact strict_text o _
  | date => exact (strict_text o _).bind fun _ => strict_modify _
  | genre => exact strict_genre
  | trackNumber | discNumber => exact strict_numbering _
  | cover =>
    change Strict (if o.findArtwork then cover else pure ())
    split
    · exact strict_cover
    · exact strict_pure _
  | freeform => exact strict_freeform o
  | _ => exact strict_pure _

end ReadTag

end AudioAtoms
