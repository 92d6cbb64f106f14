import AudioAtoms.Proofs.Acceptance
import AudioAtoms.Proofs.Truncation

/-!
# How reading can fail

A file in memory fails in one way only: it runs out of octets. A window fails in another way, it
refuses. Its refusal never gets out. Whoever opened the window passes over the rest of it, and an
error that goes on came from a window that has refused nothing, so from the file.
-/
namespace AudioAtoms

/-- A request to a slice fails only by an underrun. -/
theorem Slice.failure_answer {bounded : Bool} (q : Request bounded) (s : Slice) {e : StreamError}
    (h : q.failure? (ByteStream.answer q s).1 = some e) : e = .underrun := by
  cases q with
  | exactly n =>
    rw [Slice.answer_exactly] at h
    by_cases hn : n ≤ s.rest.length
    · rw [if_pos hn] at h
      cases h
    · rw [if_neg hn] at h
      exact (Option.some.inj h).symm
  | skip n =>
    rw [Slice.answer_skip] at h
    by_cases hn : n ≤ s.rest.length
    · rw [if_pos hn] at h
      cases h
    · rw [if_neg hn] at h
      exact (Option.some.inj h).symm
  | upTo n => cases h
  | position => cases h
  | remaining hb => cases h

namespace Scan
variable {bounded : Bool} {α β : Type} {err : α → Option StreamError} {err' : β → Option StreamError}

structure Underruns (err : α → Option StreamError) (p : Scan bounded α) : Prop where
  run : ∀ (s : Slice) e, err (p.run s).1 = some e → e = .underrun

theorem Reports.run {e e' : StreamError} {t : Scan bounded α} (ht : Reports err e t) {s : Slice}
    (h : err (t.run s).1 = some e') : e' = e := by
  rcases ht with ⟨a, rfl, ha⟩ | ⟨a, rfl, ha⟩
  · exact (Option.some.inj (ha.symm.trans h)).symm
  · cases ha.symm.trans h

theorem Candid.underruns {p : Scan bounded α} (hp : p.Candid err) : p.Underruns err := by
  refine ⟨fun s e h => ?_⟩
  unfold Candid at hp
  induction hp generalizing s with
  | done a ha => cases ha.symm.trans h
  | note m rest _ _ ih => exact ih s h
  | ask q next hfail _ ih =>
    rcases hr : q.failure? (ByteStream.answer q s).1 with _ | e'
    · exact ih _ hr _ h
    · rw [(hfail _ _ hr).run h]
      exact Slice.failure_answer q s hr

/-- In a window the scan fails by an underrun, unless the window has refused something. -/
theorem Candid.within_refused {p : Scan true α} (hp : p.Candid err) (w : Window) (s : Slice)
    (e : StreamError) (h : err ((p.within w : Scan false _).run s).1.1 = some e) :
    ((p.within w : Scan false _).run s).1.2.refused = true ∨ e = .underrun := by
  unfold Candid at hp
  induction hp generalizing w s with
  | done a ha => cases ha.symm.trans h
  | note m rest _ _ ih => exact ih w s h
  | ask q next hfail _ ih =>
    rw [Scan.within, run_bind] at h ⊢
    obtain ⟨n, -, -, hr, -⟩ | ⟨hr, hc, -⟩ | ⟨n, -, -, hr, -⟩ := w.answer_cases q s
    · exact ih _ hr _ _ h
    · obtain ⟨hwindow, -⟩ := (hfail _ _ hr).within ((w.answer q : Scan false _).run s).1.2
        ((w.answer q : Scan false _).run s).2
      rw [hwindow, hc]
      exact .inl rfl
    · obtain ⟨-, -, ⟨herr, -⟩ | ⟨herr, -⟩⟩ := (hfail _ _ hr).within
        ((w.answer q : Scan false _).run s).1.2 ((w.answer q : Scan false _).run s).2
      · exact .inr (Option.some.inj (herr.symm.trans h)).symm
      · cases herr.symm.trans h

theorem Leaves.underruns {w : Window} {t : Scan false β} (ht : t.Leaves err' w) :
    t.Underruns err' := by
  refine ⟨fun s e h => ?_⟩
  rcases Nat.lt_or_ge s.rest.length w.left with hshort | henough
  · exact (Option.some.inj ((ht.run_short hshort).2.1.symm.trans h)).symm
  · cases (ht.run_enough henough).2.1.symm.trans h

/-- The refusals of a window stay inside the reader that opened it. -/
theorem Closes.underruns {p : Scan true α} {k : α × Window → Scan false β}
    (hk : Closes err err' k) (hp : p.Candid err) (n : Nat) : (enclose n p k).Underruns err' := by
  refine ⟨fun s e h => ?_⟩
  rw [enclose, run_bind] at h
  have hinside := hp.within_refused (.ofSize n) s
  generalize (p.within (.ofSize n) : Scan false _).run s = run at h hinside
  obtain ⟨⟨a, w⟩, t⟩ := run
  rcases hw : w.refused with _ | _
  · rcases ha : err a with _ | e'
    · exact (hk.leave a w (.inl ha)).underruns.run t e h
    · obtain ⟨b, hb, hb'⟩ := hk.stop a w e' ha hw
      rw [hb] at h
      obtain rfl : e' = e := Option.some.inj (hb'.symm.trans h)
      rcases hinside e' ha with hrefused | hend
      · cases hw.symm.trans hrefused
      · exact hend
  · exact (hk.leave a w (.inr hw)).underruns.run t e h

end Scan

namespace Collect
variable {ε α β : Type} {E : ε → Prop}

/-- On a slice the reader fails only by errors of a kind. -/
structure FailsBy (E : ε → Prop) (p : Collect ε false α) : Prop where
  exec : ∀ c (s : Slice) e, (p.exec c s).1.1 = .error e → E e

theorem failsBy_throw {e : ε} (he : E e) : (throw e : Collect ε false α).FailsBy E := by
  refine ⟨fun c s e' h => ?_⟩
  rw [exec_throw] at h
  exact Except.error.inj h ▸ he

theorem failsBy_ok {p : Collect ε false α} (hp : ∀ c (s : Slice), ∃ a, (p.exec c s).1.1 = .ok a) :
    p.FailsBy E := by
  refine ⟨fun c s e h => ?_⟩
  obtain ⟨a, ha⟩ := hp c s
  cases ha.symm.trans h

theorem FailsBy.bind {p : Collect ε false α} {f : α → Collect ε false β} (hp : p.FailsBy E)
    (hf : ∀ a, (f a).FailsBy E) : (p >>= f).FailsBy E := by
  refine ⟨fun c s e h => ?_⟩
  rcases hr : p.exec c s with ⟨⟨e' | a, d⟩, t⟩
  · rw [exec_bind_error hr] at h
    refine hp.exec c s e ?_
    rw [hr]
    exact congrArg _ (Except.error.inj h)
  · rw [exec_bind_ok hr] at h
    exact (hf a).exec d t e h

theorem failsBy_read {p : Read false α} (hp : p.run.Underruns StreamError.of?) :
    (read p).FailsBy (· = .underrun) := by
  refine ⟨fun c s e h => ?_⟩
  rw [exec_read] at h
  exact hp.run s e (StreamError.of?_eq_some.mpr h)

theorem failsBy_strict {p : Read false α} (hp : p.Strict) : (read p).FailsBy (· = .underrun) :=
  failsBy_read hp.watchful.candid.underruns

end Collect

namespace TagList
open Collect

theorem failsBy_readTag (o : Options) (h : Header) :
    (readTag o h : Collect StreamError false Unit).FailsBy (· = .underrun) := by
  refine ⟨fun c s e he => ?_⟩
  rw [exec, runFrom_readTag] at he
  exact ((TagList.closes h.kind).underruns ((ReadTag.strict_readTag o h.kind).candid c)
    h.dataSize).run s e (StreamError.of?_eq_some.mpr he)

theorem failsBy_read (o : Options) (budget : Nat) :
    (read o budget : Collect StreamError false Unit).FailsBy (· = .underrun) :=
  read_of_parts (P := fun p => p.FailsBy (· = .underrun)) FailsBy.bind
    (fun n => failsBy_strict (Header.strict_read n)) (fun n => failsBy_strict (Read.strict_skip n))
    (failsBy_readTag o) budget

end TagList

namespace Walk
open Collect
variable {α : Type}

def Fault (e : ReadError) : Prop := e = .stream .underrun ∨ e = .tooDeep

theorem failsBy_lift {p : Collect StreamError false α} (hp : p.FailsBy (· = .underrun)) :
    (lift p).FailsBy Fault := by
  refine ⟨fun c s e h => ?_⟩
  rw [exec_lift] at h
  rcases hr : (p.exec c s).1.1 with e' | a
  · rw [hr] at h
    rw [← Except.error.inj h, hp.exec c s e' hr]
    exact .inl rfl
  · rw [hr] at h
    cases h

theorem failsBy_leaf (h : Header) {payload : Read true α} (hp : payload.Watchful) :
    (leaf h payload).FailsBy Fault := by
  refine failsBy_lift (failsBy_read ?_)
  rw [Leaf.run_read]
  exact (Leaf.closes h.kind).underruns hp.candid h.dataSize

theorem composed_failsBy : Composed fun p => p.FailsBy Fault where
  pure a := failsBy_ok fun _ _ => ⟨a, rfl⟩
  bind := FailsBy.bind
  get := failsBy_ok fun c _ => ⟨c, rfl⟩
  track _ _ := failsBy_ok fun _ _ => ⟨(), rfl⟩
  note _ _ := failsBy_ok fun _ _ => ⟨(), rfl⟩
  tooDeep := failsBy_throw (.inr rfl)
  skip n := failsBy_lift (failsBy_strict (Read.strict_skip n))
  header budget := failsBy_lift (failsBy_strict (Header.strict_read budget))
  leaf h _ hp := failsBy_leaf h hp
  tags o n := failsBy_lift (TagList.failsBy_read o n)

end Walk

namespace Track

/-- A record with a codec that is refused lacks audio or lasts for too short a time. -/
theorem completed_eq_error {t : Track} {e : ReadError} (hnamed : t.audio.Named)
    (h : t.completed = .error e) : e = .noAudioTrack ∨ e = .invalidLength := by
  rw [completed_eq_error_iff, Audio.completed] at h
  by_cases hnone : t.audio.samples = 0 ∨ t.audio.sampleRate = 0 ∨ t.audio.bytes = 0
  · rw [if_pos hnone] at h
    exact .inl (Except.error.inj h).symm
  have hcodec : t.audio.codec ≠ .unknown := hnamed fun hrate => hnone (.inr (.inl hrate))
  rw [if_neg hnone, if_neg hcodec] at h
  by_cases hlength : t.audio.milliseconds = 0
  · rw [if_pos hlength] at h
    exact .inr (Except.error.inj h).symm
  · rw [if_neg hlength] at h
    cases h

/-- A walk over a file in memory that runs into its end asked for more octets than there were. -/
theorem not_enough_of_underrun {o : Options} {size : Nat} {s : Slice}
    (h : ((Walk.walk o size).exec (.start o) s).1.1 = .error (.stream .underrun)) :
    ¬(ReadFile.track o size).run.Enough s := by
  rw [ReadFile.run_track, Scan.enough_bind]
  rintro ⟨henough, -⟩
  exact ((Walk.composed_admits.ofForest o Walk.maxDepth size (.start o) s).mp henough).1 h

/-- Whatever is in memory and whatever size is given for it, the walk fails by an underrun or by
the depth of the atoms, at every level of them. Reading fails in these ways, the first of them only
where the octets ran out, or because there is no audio that lasts. -/
theorem read_error_cases (o : Options) (size : Nat) (data : Bytes) :
    (∀ levels budget c (s : Slice) e, ((Walk.forest o levels budget).exec c s).1.1 = .error e →
      e = .stream .underrun ∨ e = .tooDeep) ∧
    ∀ e, Track.read o size (Slice.ofBytes data) = .error e →
      (e = .stream .underrun ∧ e.kind = .stream ∧ StreamError.underrun.kind = .unexpectedEnd ∧
        e.message = "buffer underrun" ∧
        ¬(ReadFile.track o size).run.Enough (Slice.ofBytes data)) ∨
      (e = .tooDeep ∧ e.kind = .limit) ∨
      (e = .noAudioTrack ∧ e.kind = .malformed ∧ e.detail = "isomp4: no audio track found") ∨
      (e = .invalidLength ∧ e.kind = .malformed ∧
        e.detail = "isomp4: track length is invalid") := by
  have hwalk (levels budget : Nat) := (Walk.composed_failsBy.ofForest o levels budget).exec
  refine ⟨hwalk, fun e h => ?_⟩
  have hnamed := Walk.named_walk o size (Slice.ofBytes data)
  have hfault := hwalk Walk.maxDepth size (.start o) (Slice.ofBytes data)
  have hshort := @not_enough_of_underrun o size (Slice.ofBytes data)
  rw [Track.read_eq] at h
  rw [Walk.walk] at h hnamed hshort
  generalize ((Walk.forest o Walk.maxDepth size).exec (.start o) (Slice.ofBytes data)).1 = run
    at h hnamed hfault hshort
  obtain ⟨e' | step, c⟩ := run
  · obtain rfl : e' = e := Except.error.inj h
    rcases hfault e' rfl with rfl | rfl
    · exact .inl ⟨rfl, rfl, rfl, rfl, hshort rfl⟩
    · exact .inr (.inl ⟨rfl, rfl⟩)
  · rcases completed_eq_error hnamed h with rfl | rfl
    · exact .inr (.inr (.inl ⟨rfl, rfl, rfl⟩))
    · exact .inr (.inr (.inr ⟨rfl, rfl, rfl⟩))

/-- A handler atom of three octets is refused the first field of its payload and passed over. The
header behind it is cut by the end of the file, and that is the error. -/
theorem read_error_cases_recovered :
    let o : Options := { arenaSize := 0 }
    let file := Atom.octets Kind.handler.code [1, 2, 3] ++ [0, 0, 0]
    Track.read o 20 (Slice.ofBytes file) = .error (.stream .underrun) ∧
      ¬(ReadFile.track o 20).run.Enough (Slice.ofBytes file) := by
  intro o file
  have hread : Track.read o 20 (Slice.ofBytes file) = .error (.stream .underrun) := by
    cbv
  refine ⟨hread, ?_⟩
  obtain ⟨-, -, -, -, hshort⟩ | ⟨he, -⟩ | ⟨he, -⟩ | ⟨he, -⟩ :=
    (read_error_cases o 20 file).2 _ hread
  · exact hshort
  · cases he
  · cases he
  · cases he

end Track

end AudioAtoms
