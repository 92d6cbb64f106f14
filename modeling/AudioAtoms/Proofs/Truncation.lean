import AudioAtoms.Proofs.Forest
import AudioAtoms.Proofs.ReadTrack
import AudioAtoms.Proofs.Shortage
import AudioAtoms.Proofs.Traversal

/-!
# Files that end too early

A reader that runs out of octets says so: it fails with an underrun, or it remarks that descriptors
were cut. A run without either of them has found every octet it asked for, so it takes no notice of
what follows, and a longer file gives the same record.
-/
namespace AudioAtoms

namespace Collect
variable {ε α β : Type}

/-- The reader admits that the octets ran out just if they did, by the error `u` or by a remark. -/
def Admits (u : ε) (p : Collect ε false α) : Prop :=
  ∀ c (s : Slice), p.Enough c s ↔ (p.exec c s).1.1 ≠ .error u ∧ ¬p.Cut c s

variable {u : ε} {p : Collect ε false α} {f : α → Collect ε false β}

theorem Admits.bind (hp : p.Admits u) (hf : ∀ a, (f a).Admits u) : (p >>= f).Admits u := by
  intro c s
  have h := hp c s
  rcases hr : p.exec c s with ⟨⟨e | a, d⟩, t⟩
  · rw [hr] at h
    rw [enough_bind_error hr, exec_bind_error hr, cut_bind_error hr, h]
    exact and_congr_left fun _ => not_congr
      ⟨fun he => congrArg _ (Except.error.inj he), fun he => congrArg _ (Except.error.inj he)⟩
  · have hok : (Except.ok a : Except ε α) ≠ .error u := by nofun
    rw [hr] at h
    rw [enough_bind_ok hr, exec_bind_ok hr, cut_bind_ok hr, h, hf a d t, not_or]
    exact ⟨fun ⟨⟨_, hcut⟩, hend, hcut'⟩ => ⟨hend, hcut, hcut'⟩,
      fun ⟨hend, hcut, hcut'⟩ => ⟨⟨hok, hcut⟩, hend, hcut'⟩⟩

theorem admits_done (hp : ∀ c, ∃ r d, p.runFrom c = .done (r, d) ∧ r ≠ .error u) :
    p.Admits u := by
  intro c s
  obtain ⟨r, d, hrun, hr⟩ := hp c
  rw [Enough, exec, Cut, hrun]
  exact ⟨fun _ => ⟨hr, Scan.not_cut_done _ s⟩, fun _ => trivial⟩

theorem admits_pure (a : α) : (pure a : Collect ε false α).Admits u :=
  admits_done fun c => ⟨.ok a, c, rfl, by nofun⟩

theorem admits_get : (get : Collect ε false Collected).Admits u :=
  admits_done fun c => ⟨.ok c, c, rfl, by nofun⟩

theorem admits_modify (g : Collected → Collected) : (modify g : Collect ε false Unit).Admits u :=
  admits_done fun c => ⟨.ok (), g c, rfl, by nofun⟩

theorem admits_note {m : Notice} (hm : m ≠ .descriptorsCut .underrun) :
    (note m : Collect ε false Unit).Admits u := by
  intro c s
  rw [Cut, runFrom_note, Scan.cut_note hm]
  exact ⟨fun _ => ⟨by simp, Scan.not_cut_done _ s⟩, fun _ => trivial⟩

end Collect

namespace Collect
variable {α β : Type}

theorem read_bind (p : Read false α) (f : α → Read false β) :
    (read (p >>= f) : Collect StreamError false β) = read p >>= fun a => read (f a) := by
  funext c
  change (read (p >>= f)).runFrom c = (read p >>= fun a => read (f a)).runFrom c
  rw [runFrom_bind, runFrom_read, runFrom_read, Read.run_bind, Scan.bind_assoc, Scan.bind_assoc]
  congr 1
  funext r
  cases r <;> rfl

theorem admits_read_bind {p : Read false α} {f : α → Read false β}
    (hp : (read p).Admits StreamError.underrun)
    (hf : ∀ a, (read (f a)).Admits StreamError.underrun) :
    (read (p >>= f)).Admits StreamError.underrun := by
  rw [read_bind]
  exact hp.bind hf

/-- A request for a fixed number of octets fails just if there are too few. -/
theorem admits_fixed {p : Read false α} (hp : p.Strict) (n : Nat)
    (henough : ∀ s, n ≤ s.rest.length → p.run.Enough s ∧ (p.exec s).1 ≠ .error .underrun)
    (hshort : ∀ s, ¬n ≤ s.rest.length → ¬p.run.Enough s ∧ (p.exec s).1 = .error .underrun) :
    (read p).Admits StreamError.underrun := by
  intro c s
  have hquiet := (quiet_read hp c).not_cut s
  rw [enough_read, exec_read]
  by_cases h : n ≤ s.rest.length
  · obtain ⟨hall, hend⟩ := henough s h
    exact ⟨fun _ => ⟨hend, hquiet⟩, fun _ => hall⟩
  · obtain ⟨hfew, hend⟩ := hshort s h
    exact ⟨fun hall => absurd hall hfew, fun hok => absurd hend hok.1⟩

theorem admits_exactly (n : Nat) :
    (read (Read.exactly n) : Collect StreamError false Bytes).Admits .underrun := by
  refine admits_fixed (Read.strict_exactly n) n (fun s h => ⟨⟨h, trivial⟩, ?_⟩)
    (fun s h => ⟨fun hall => h hall.1, ?_⟩)
  · rw [Read.exec_exactly, Slice.answer_exactly, if_pos h]
    nofun
  · rw [Read.exec_exactly, Slice.answer_exactly, if_neg h]

theorem admits_skip (n : Nat) :
    (read (Read.skip n) : Collect StreamError false Unit).Admits .underrun := by
  refine admits_fixed (Read.strict_skip n) n (fun s h => ⟨⟨h, trivial⟩, ?_⟩)
    (fun s h => ⟨fun hall => h hall.1, ?_⟩)
  · rw [Read.exec_skip, Slice.answer_skip, if_pos h]
    nofun
  · rw [Read.exec_skip, Slice.answer_skip, if_neg h]

theorem admits_number (n : Nat) :
    (read (Read.number n) : Collect StreamError false Nat).Admits .underrun :=
  admits_read_bind (admits_exactly n) fun _ => admits_pure _

theorem admits_header (budget : Nat) :
    (read (Header.read budget) : Collect StreamError false Header).Admits .underrun := by
  refine admits_read_bind (admits_number 4) fun declared =>
    admits_read_bind (admits_read_bind (admits_exactly 4) fun _ => admits_pure _) fun code => ?_
  have hnote (m : Notice) (hm : m ≠ .descriptorsCut .underrun) (h : Header) :
      (read (Read.note m >>= fun _ => pure h) : Collect StreamError false Header).Admits
        .underrun :=
    admits_read_bind (admits_note hm) fun _ => admits_pure h
  by_cases h0 : declared = 0
  · rw [if_pos h0]
    exact admits_pure _
  · rw [if_neg h0]
    by_cases h1 : declared = 1
    · rw [if_pos h1]
      exact admits_read_bind (admits_number 8) fun _ => hnote _ (by nofun) _
    · rw [if_neg h1]
      by_cases hs : declared < Header.minSize
      · rw [if_pos hs]
        exact hnote _ (by nofun) _
      · rw [if_neg hs]
        exact admits_pure _

end Collect

namespace TagList
open Collect

theorem admits_readTag (o : Options) (h : Header) :
    (readTag o h : Collect StreamError false Unit).Admits .underrun := by
  intro c s
  have hcandid := (ReadTag.strict_readTag o h.kind).candid c
  rw [Enough, exec, Cut, runFrom_readTag, (TagList.closes h.kind).enough_iff hcandid]
  exact and_congr_left fun _ => not_congr StreamError.of?_eq_some

theorem admits_read (o : Options) (budget : Nat) :
    (read o budget : Collect StreamError false Unit).Admits .underrun :=
  read_of_parts (P := fun p => p.Admits .underrun) Admits.bind admits_header admits_skip
    (admits_readTag o) budget

end TagList

namespace Walk
open Collect
variable {α : Type}

theorem admits_lift {p : Collect StreamError false α} (hp : p.Admits .underrun) :
    (lift p).Admits (.stream .underrun) := by
  intro c s
  rw [enough_lift, exec_lift, cut_lift, hp c s]
  refine and_congr_left fun _ => not_congr ?_
  rcases (p.exec c s).1.1 with e | a
  · exact ⟨fun h => by rw [Except.error.inj h]; rfl,
      fun h => by rw [ReadError.stream.inj (Except.error.inj h)]⟩
  · exact ⟨nofun, nofun⟩

theorem admits_leaf (h : Header) {p : Read true α} (hp : p.Watchful) :
    (leaf h p).Admits (.stream .underrun) := by
  refine admits_lift fun c s => ?_
  rw [enough_read, exec_read, cut_read, Read.exec, Leaf.run_read,
    (Leaf.closes h.kind).enough_iff hp.candid]
  exact and_congr_left fun _ => not_congr StreamError.of?_eq_some

theorem composed_admits : Composed fun p => p.Admits (.stream .underrun) where
  pure := admits_pure
  bind := Admits.bind
  get := admits_get
  track _ _ := admits_modify _
  note _ hm := admits_note hm
  tooDeep := admits_done fun c => ⟨.error .tooDeep, c, rfl, by nofun⟩
  skip n := admits_lift (admits_skip n)
  header budget := admits_lift (admits_header budget)
  leaf h _ hp := admits_leaf h hp
  tags o n := admits_lift (TagList.admits_read o n)

end Walk

/-- Completing a record asks for nothing. -/
theorem ReadFile.complete_idle (t : Track) (s : Slice) :
    (ReadFile.complete t).run.Enough s ∧ ¬(ReadFile.complete t).run.Cut s := by
  have hquiet (m : Notice) (hm : m ≠ .descriptorsCut .underrun) (r : Except ReadError Track) :
      (Scan.note m (.done r) : Scan false _).Enough s ∧
        ¬(Scan.note m (.done r) : Scan false _).Cut s :=
    ⟨trivial, fun h => Scan.not_cut_done r s ((Scan.cut_note hm _ s).mp h)⟩
  rw [ReadFile.complete]
  by_cases haudio : t.audio.samples = 0 ∨ t.audio.sampleRate = 0 ∨ t.audio.bytes = 0
  · simp only [haudio, if_true]
    exact hquiet _ (by simp) _
  · by_cases hcodec : t.audio.codec = .unknown
    · simp only [haudio, hcodec, if_true, if_false]
      exact hquiet _ (by simp) _
    · by_cases hlength : t.audio.milliseconds = 0
      · simp only [haudio, hcodec, hlength, if_true, if_false]
        exact hquiet _ (by simp) _
      · simp only [haudio, hcodec, hlength, if_false]
        exact hquiet _ (by simp) _

namespace Track

theorem enough_iff_not_cut {o : Options} {size : Nat} {s : Slice} {m : Track}
    (h : Track.read o size s = .ok m) :
    (ReadFile.track o size).run.Enough s ↔ ¬(ReadFile.track o size).run.Cut s := by
  have hwalk : (Walk.walk o size).Enough (.start o) s ↔
      ((Walk.walk o size).exec (.start o) s).1.1 ≠ .error (.stream .underrun) ∧
        ¬(Walk.walk o size).Cut (.start o) s :=
    Walk.composed_admits.ofForest o Walk.maxDepth size (.start o) s
  rw [Track.read_eq] at h
  rw [ReadFile.run_track, Scan.enough_bind, Scan.cut_bind]
  rcases hr : (Walk.walk o size).exec (.start o) s with ⟨⟨e | step, c⟩, t⟩
  · rw [hr] at h
    cases h
  · rw [hr] at hwalk
    obtain ⟨henough, hcut⟩ := ReadFile.complete_idle c.track t
    have hrun : ((Walk.walk o size).runFrom (.start o)).run s = ((.ok step, c), t) := hr
    rw [hrun, not_or]
    exact ⟨fun hall => ⟨(hwalk.mp hall.1).2, hcut⟩,
      fun hnone => ⟨hwalk.mpr ⟨nofun, hnone.1⟩, henough⟩⟩

/-- Where the prefix of a file gives a record, the reader found all octets it asked for just if no
descriptors were cut, and then every longer file gives the same record. -/
theorem read_append {o : Options} {size : Nat} {bs : Bytes} {m : Track}
    (h : Track.read o size (Slice.ofBytes bs) = .ok m) :
    ((ReadFile.track o size).run.Enough (Slice.ofBytes bs) ↔
      ¬(ReadFile.track o size).run.Cut (Slice.ofBytes bs)) ∧
    (¬(ReadFile.track o size).run.Cut (Slice.ofBytes bs) →
      ∀ more, Track.read o size (Slice.ofBytes (bs ++ more)) = .ok m) := by
  have hiff := enough_iff_not_cut h
  refine ⟨hiff, fun hcut more => ?_⟩
  have hrun := (hiff.mpr hcut).run_append more
  rw [← h, Track.read, Track.read, show Slice.ofBytes (bs ++ more) = (Slice.ofBytes bs).append more
    from rfl, hrun]

def sampleAtoms : Bytes :=
  Atom.octets Kind.timeToSample.code
    (Bytes.ofNat 4 0 ++ Bytes.ofNat 4 1 ++ Bytes.ofNat 4 1000 ++ Bytes.ofNat 4 1024) ++
  Atom.octets Kind.alacEntry.code (List.replicate 28 0 ++
    Atom.octets Kind.alacEntry.code (List.replicate 24 0 ++ Bytes.ofNat 4 48000))

/-- A file that is cut behind the header of its audio data. -/
theorem read_append_audio :
    let o : Options := { arenaSize := 0 }
    let start := sampleAtoms ++ Bytes.ofNat 4 500008 ++ Kind.mediaData.code.toBytes
    let m : Track :=
      { audio :=
          { codec := .alac, sampleRate := 48000, samples := 1024000, bytes := 500000,
            length := 21333, bitrate := 187, variableRate := true } }
    Track.read o 500104 (Slice.ofBytes start) = .ok m ∧
      ∀ more, Track.read o 500104 (Slice.ofBytes (start ++ more)) = .ok m := by
  intro o start m
  have h : Track.read o 500104 (Slice.ofBytes start) = .ok m := by cbv
  have hnotices : (ReadFile.track o 500104).run.notices (Slice.ofBytes start) =
      [.summary 187 48000 21333] := by cbv
  have hcut : ¬(ReadFile.track o 500104).run.Cut (Slice.ofBytes start) := by
    rw [Scan.Cut, hnotices]
    decide
  exact ⟨h, (read_append h).2 hcut⟩

def twoEntries : Bytes :=
  Atom.octets Kind.mediaData.code [0] ++ sampleAtoms ++
  Atom.octets Kind.aacEntry.code (List.replicate 28 0 ++
    Atom.octets Kind.elementaryStream.code ([0, 0, 0, 0, 0, 0, 1, 4, 17] ++
      [0x40, 0x15, 0, 0, 0, 0, 1, 0xf4, 0, 0, 1, 0xf4, 0] ++ [5, 2, 0x12, 0x10]))

/-- Without its last nine octets the file gives another sample rate. -/
theorem read_twoEntries_cut :
    let o : Options := { arenaSize := 0 }
    ∃ m m', Track.read o 175 (Slice.ofBytes twoEntries) = .ok m ∧
      Track.read o 175 (Slice.ofBytes (twoEntries.take 166)) = .ok m' ∧ m ≠ m' := by
  intro o
  have hwhole : Track.read o 175 (Slice.ofBytes twoEntries) =
      .ok { audio :=
              { codec := .aac, sampleRate := 44100, samples := 1024000, bytes := 1,
                length := 23220, variableRate := true } } := by cbv
  have hcut : Track.read o 175 (Slice.ofBytes (twoEntries.take 166)) =
      .ok { audio :=
              { codec := .aac, sampleRate := 48000, samples := 1024000, bytes := 1,
                length := 21333, variableRate := true } } := by cbv
  exact ⟨_, _, hwhole, hcut, by decide⟩

end Track

end AudioAtoms
