import AudioAtoms.Proofs.Buffering

/-!
# Scripts of reads and moves

A script reads from a stream and moves it, forwards and backwards, as often as it likes. A buffered
source gives the replies of the plain tape of its content to every script, and is after every
command where the tape is: what stands in the buffer never shows, nor how the source filled it.
-/
namespace AudioAtoms

class Seekable (σ : Type) where
  seekBy : Int → σ → Except StreamError Nat × σ

instance : Seekable Buffered where
  seekBy delta s := s.seekBy delta

instance : Seekable Tape where
  seekBy delta t := t.seekBy delta

inductive Command where
  | exactly (n : Nat)
  | upTo (n : Nat)
  | skip (n : Nat)
  | seek (delta : Int)
deriving DecidableEq, Repr

/-- What comes of a command. A skip has nothing to tell. -/
inductive Reply where
  | octets (r : Except StreamError Bytes)
  | skipped (r : Except StreamError Unit)
  | sought (r : Except StreamError Nat)
deriving Repr

namespace Command

/-- A seek whose distance is a signed word of 64 bits, also when a whole buffer is added to it. -/
def InReach (capacity : Nat) : Command → Prop
  | seek delta => -2 ^ 63 + capacity ≤ delta ∧ delta < 2 ^ 63
  | _ => True

instance (capacity : Nat) : (command : Command) → Decidable (command.InReach capacity)
  | seek delta => inferInstanceAs (Decidable (-2 ^ 63 + capacity ≤ delta ∧ delta < 2 ^ 63))
  | exactly _ | upTo _ | skip _ => inferInstanceAs (Decidable True)

variable {σ : Type} [ByteStream false σ] [Seekable σ]

def run (s : σ) : Command → Reply × σ
  | exactly n => (ByteStream.answer (.exactly n : Request false) s).map .octets id
  | upTo n => (ByteStream.answer (.upTo n : Request false) s).map .octets id
  | skip n => (ByteStream.answer (.skip n : Request false) s).map .skipped id
  | seek delta => (Seekable.seekBy delta s).map .sought id

/-- The replies to a script, each with the position that the stream has then. -/
def replies (s : σ) : List Command → List (Reply × Nat)
  | [] => []
  | command :: script =>
    let (reply, t) := command.run s
    (reply, (ByteStream.answer (.position : Request false) t).1) :: replies t script

end Command

namespace Buffered

theorem capacity_fetch (s : Buffered) : s.fetch.2.capacity = s.capacity := by
  unfold fetch
  split
  · split <;> rfl
  · rfl

theorem capacity_readUpTo (s : Buffered) (n : Nat) : (s.readUpTo n).2.capacity = s.capacity := by
  fun_induction readUpTo s n with
  | case1 => rfl
  | case2 s n _ e t hfetch | case3 s n _ t hfetch _ =>
    have hkept := s.capacity_fetch
    rw [hfetch] at hkept
    exact hkept
  | case4 s n _ t hfetch _ _ u hrest ih | case5 s n _ t hfetch _ _ u hrest ih =>
    have hkept := s.capacity_fetch
    rw [hfetch] at hkept
    rw [hrest] at ih
    exact ih.trans hkept

theorem capacity_readExactly (s : Buffered) (n : Nat) :
    (s.readExactly n).2.capacity = s.capacity := by
  rw [← s.capacity_readUpTo n, readExactly]
  rcases s.readUpTo n with ⟨_ | _, t⟩ <;> rfl

theorem capacity_seekBy (s : Buffered) (delta : Int) :
    (s.seekBy delta).2.capacity = s.capacity := by
  unfold seekBy
  split
  · rfl
  · split
    · rfl
    · split <;> rfl

theorem capacity_skip (s : Buffered) (n : Nat) : (s.skip n).2.capacity = s.capacity := by
  rw [skip]
  split
  · rw [← s.capacity_seekBy n]
    rcases s.seekBy n with ⟨_ | _, t⟩ <;> rfl
  · rfl

theorem capacity_run (s : Buffered) (command : Command) :
    (command.run s).2.capacity = s.capacity := by
  cases command with
  | exactly n => exact s.capacity_readExactly n
  | upTo n => exact s.capacity_readUpTo n
  | skip n => exact s.capacity_skip n
  | seek delta => exact s.capacity_seekBy delta

/-- A buffered source obeys a command as its tape does, and goes on doing so. -/
theorem Coherent.obey {s : Buffered} (hs : s.Coherent) {command : Command}
    (h : command.InReach s.capacity) :
    ∃ t, command.run s = ((command.run s.tape).1, t) ∧ t.Coherent ∧
      t.tape = (command.run s.tape).2 := by
  cases command with
  | exactly n =>
    obtain ⟨t, hr, ht⟩ := hs.answer (.exactly n)
    exact ⟨t, congrArg (Prod.map Reply.octets id) hr, ht⟩
  | upTo n =>
    obtain ⟨t, hr, ht⟩ := hs.answer (.upTo n)
    exact ⟨t, congrArg (Prod.map Reply.octets id) hr, ht⟩
  | skip n =>
    obtain ⟨t, hr, ht⟩ := hs.answer (.skip n)
    exact ⟨t, congrArg (Prod.map Reply.skipped id) hr, ht⟩
  | seek delta =>
    have hlow : -2 ^ 63 + (s.capacity : Int) ≤ delta := h.1
    have hunread : s.unread ≤ s.capacity := Nat.le_trans (Nat.sub_le _ _) hs.size_le_capacity
    obtain ⟨t, hr, ht⟩ := hs.seekBy delta (.inr (by omega)) h.2
    exact ⟨t, congrArg (Prod.map Reply.sought id) hr, ht⟩

theorem Coherent.replies {s : Buffered} (hs : s.Coherent) {script : List Command}
    (h : ∀ command ∈ script, command.InReach s.capacity) :
    Command.replies s script = Command.replies s.tape script := by
  induction script generalizing s with
  | nil => rfl
  | cons command script ih =>
    obtain ⟨hfirst, hrest⟩ := List.forall_mem_cons.mp h
    obtain ⟨t, hrun, ht, htape⟩ := hs.obey hfirst
    have hcapacity : t.capacity = s.capacity := by
      rw [← s.capacity_run command, hrun]
    have hpos : (ByteStream.answer (.position : Request false) t).1 =
        (ByteStream.answer (.position : Request false) t.tape).1 := rfl
    rw [Command.replies, Command.replies, hrun]
    simp only [← htape, hpos, ih ht (hcapacity ▸ hrest)]

/-- A buffered source simulates a plain position over its content. It starts where the source
stands, and every reply to a script and every position on the way are those of the tape: however
many octets are read ahead, however few of them each read gives, and whichever reads are
interrupted. -/
theorem replies_ofSource (content : Array UInt8) (start : Nat) {schedule : Schedule}
    (hs : schedule.Reliable) (hsize : content.size < 2 ^ 64) (hstart : start < 2 ^ 64)
    {capacity : Nat} (h : 0 < capacity) (script : List Command)
    (hscript : ∀ command ∈ script, command.InReach capacity) :
    let s := Buffered.ofSource (.ofContent content start schedule) capacity h
    let t : Tape := ⟨content.toList, start, 2 ^ 64 - 1⟩
    s.pos = start ∧ Command.replies s script = Command.replies t script := by
  intro s t
  obtain ⟨hcoherent, htape⟩ :=
    coherent_ofSource (Source.reliable_ofContent hsize hstart hs) h
  refine ⟨congrArg Tape.pos htape, ?_⟩
  rw [hcoherent.replies hscript, htape]
  rfl

/-- Eight octets from the third one on, read two at a time into a buffer of three with every third
call interrupted: seeks inside the buffer and beyond it, back to octets that were dropped, before
the first octet and far behind the last one. -/
theorem replies_ofSource_interrupted :
    let content : Array UInt8 := #[10, 11, 12, 13, 14, 15, 16, 17]
    let schedule := Schedule.periodic 3 (by decide) (some 2) none
    let script : List Command :=
      [.exactly 2, .seek 1, .upTo 4, .seek (-6), .exactly 1, .seek (-9), .skip (2 ^ 63), .skip 100,
        .upTo 3, .exactly 2]
    Command.replies (Buffered.ofSource (.ofContent content 2 schedule) 3 (by decide)) script =
      [(.octets (.ok [12, 13]), 4), (.sought (.ok 5), 5), (.octets (.ok [15, 16, 17]), 8),
        (.sought (.ok 2), 2), (.octets (.ok [12]), 3), (.sought (.error .badSeek), 3),
        (.skipped (.error .skipTooLarge), 3), (.skipped (.ok ()), 103), (.octets (.ok []), 103),
        (.octets (.error .endOfStream), 103)] := by
  intro content schedule script
  have hs : schedule.Reliable := Schedule.reliable_periodic _ (by decide)
  have hreach : ∀ command ∈ script, command.InReach 3 := by decide
  have hreplies := (replies_ofSource content 2 hs (by decide) (by decide) (by decide) script hreach).2
  exact hreplies.trans (by cbv)

end Buffered

end AudioAtoms
