import AudioAtoms.Proofs.ReadTrack
import AudioAtoms.Proofs.Steps
import AudioAtoms.Proofs.WalkVisit

/-!
# What atoms state about the audio

The audio of a file is described by a few kinds of leaves: sample entries, tables of durations and
the audio data itself. A forest states what its leaves state, in the order of the file, and the
record follows from this row of statements alone. Where a statement comes from makes no difference:
each is made to one record, over whatever was stated before. Statements describe the audio by
themselves if there is an entry among them that tells the sample rate, and a table behind it.
-/
namespace AudioAtoms

/-- What an atom states about the audio of the file. -/
inductive Statement where
  | table (runs : List SampleRun)
  | stream (stream : ElementaryStream)
  | lossless (rate : Nat)
  /-- Audio data of so many octets. -/
  | data (size : Nat)
  /-- A container that is not entered. -/
  | tooDeep
deriving DecidableEq

namespace Statement
variable (o : Options)

def ofLeaf? (kind : Kind) (bs : Bytes) : Option Statement :=
  match kind with
  | .timeToSample => (Content.sampleTable? bs).map table
  | .aacEntry => (Content.elementaryStream? bs).map stream
  | .alacEntry => (Content.alacRate? bs).map lossless
  | .mediaData => if bs = [] then none else some (data bs.length)
  | _ => none

def apply : Statement → Audio → Audio
  | table runs, a => Content.withRuns runs a
  | stream s, a => Content.withStream o s a
  | lossless rate, a => { a with sampleRate := rate, codec := .alac }
  | data size, a => { a with bytes := min (a.bytes + size) (2 ^ 64 - 1) }
  | tooDeep, a => a

/-- The outcome of the walk if it ends at a statement, given the audio with that statement. -/
def end? (a : Audio) : Statement → Option (Except ReadError Walk.Step)
  | data _ => if 0 < a.samples then some (.ok .stop) else none
  | tooDeep => some (.error .tooDeep)
  | _ => none

/-- The outcome of a row of statements and the audio they leave. -/
def hear : List Statement → Audio → Except ReadError Walk.Step × Audio
  | [], a => (.ok .proceed, a)
  | s :: rest, a =>
    match s.end? (s.apply o a) with
    | some outcome => (outcome, s.apply o a)
    | none => hear rest (s.apply o a)

theorem end?_ne_proceed (s : Statement) (a : Audio) : s.end? a ≠ some (.ok .proceed) := by
  cases s with
  | data size =>
    rw [end?]
    split <;> simp
  | _ => simp [end?]

/-- What stands behind is heard only if the walk goes on. -/
theorem hear_append (xs ys : List Statement) (a : Audio) :
    hear o (xs ++ ys) a =
      match hear o xs a with
      | (.ok .proceed, b) => hear o ys b
      | ended => ended := by
  induction xs generalizing a with
  | nil => rfl
  | cons s xs ih =>
    rw [List.cons_append, hear, hear]
    cases hend : s.end? (s.apply o a) with
    | none => exact ih _
    | some outcome =>
      match outcome, hend with
      | .ok .proceed, hend => exact absurd hend (s.end?_ne_proceed _)
      | .ok .stop, _ => rfl
      | .error _, _ => rfl

end Statement

/-- Tags state nothing. -/
theorem TagContent.untrimmed_applyAll (o : Options) (pos : Nat) (tags : List TagAtom)
    (c : Collected) : (applyAll o pos tags c).track.audio.untrimmed = c.track.audio.untrimmed := by
  induction tags generalizing pos c with
  | nil => rfl
  | cons tag tags ih =>
    exact (ih _ _).trans (Collected.tagStep_apply o (.ofCode tag.code) _ tag.payload c).untrimmed

namespace Forest

def statements : Forest → Nat → Option Handler → List Statement
  | nil, _, _ => []
  | leaf code payload next, levels, handler =>
    match Kind.ofCode code with
    | .handler => next.statements levels (Content.handler? payload)
    | kind => (Statement.ofLeaf? kind payload).toList ++ next.statements levels handler
  | tagList _ next, levels, handler => next.statements levels handler
  | container kind _ inner next, levels, handler =>
    if kind = .mediaInfo ∧ handler ≠ some .sound then next.statements levels handler
    else if levels = 0 then .tooDeep :: next.statements levels handler
    else inner.statements (levels - 1) none ++ next.statements levels handler

variable (o : Options)

/-- A leaf that is no audio data changes the audio as it states. -/
theorem hear_leaf {kind : Kind} (hd : kind ≠ .mediaData) (bs : Bytes) (c : Collected)
    (rest : List Statement) :
    Statement.hear o ((Statement.ofLeaf? kind bs).toList ++ rest) c.track.audio.untrimmed =
      Statement.hear o rest (Content.apply o kind bs c).track.audio.untrimmed := by
  cases kind with
  | mediaData => exact absurd rfl hd
  | timeToSample =>
    rw [Content.apply, Statement.ofLeaf?]
    cases Content.sampleTable? bs <;> rfl
  | aacEntry =>
    rw [Content.apply, Statement.ofLeaf?]
    cases Content.elementaryStream? bs <;> rfl
  | alacEntry =>
    rw [Content.apply, Statement.ofLeaf?]
    cases Content.alacRate? bs <;> rfl
  | chapterList =>
    rw [Content.apply]
    cases Content.firstChapter? bs <;> rfl
  | _ => rfl

theorem hear_data (size : Nat) (c : Collected) (rest : List Statement) :
    Statement.hear o (.data size :: rest) c.track.audio.untrimmed =
      if 0 < (c.addAudio size).track.audio.samples then
        (.ok .stop, (c.addAudio size).track.audio.untrimmed)
      else Statement.hear o rest (c.addAudio size).track.audio.untrimmed := by
  have haudio : Statement.apply o (.data size) c.track.audio.untrimmed =
      (c.addAudio size).track.audio.untrimmed := rfl
  have hsamples : (c.addAudio size).track.audio.untrimmed.samples =
      (c.addAudio size).track.audio.samples := rfl
  rw [Statement.hear, haudio, Statement.end?, hsamples]
  by_cases hs : 0 < (c.addAudio size).track.audio.samples
  · rw [if_pos hs, if_pos hs]
  · rw [if_neg hs, if_neg hs]

/-- The visit hears what the forest states. -/
theorem visit_hear (f : Forest) (levels : Nat) (handler : Option Handler) (pos : Nat)
    (c : Collected) :
    Statement.hear o (f.statements levels handler) c.track.audio.untrimmed =
      ((f.visit o levels handler pos c).1,
        (f.visit o levels handler pos c).2.track.audio.untrimmed) := by
  induction f generalizing levels handler pos c with
  | nil => rfl
  | leaf code payload next ih =>
    by_cases hh : Kind.ofCode code = .handler
    · simp only [statements, visit, visitLeaf, hh]
      exact ih _ _ _ _
    have hstatements : (leaf code payload next).statements levels handler =
        (Statement.ofLeaf? (.ofCode code) payload).toList ++ next.statements levels handler := by
      rw [statements]
      split
      · exact absurd ‹_› hh
      · rfl
    rw [hstatements]
    by_cases hd : Kind.ofCode code = .mediaData
    · simp only [visit, visitLeaf, hd, Statement.ofLeaf?]
      by_cases hp : payload = []
      · rw [if_pos hp, if_pos hp]
        exact ih _ _ _ _
      rw [if_neg hp, if_neg hp, Option.toList_some, List.singleton_append, hear_data]
      split
      · rfl
      · exact ih _ _ _ _
    · rw [hear_leaf o hd, visit_leaf o code payload next levels handler pos c hh hd]
      exact ih _ _ _ _
  | tagList tags next ih =>
    rw [statements, visit, visitTagList]
    refine Eq.trans (congrArg _ ?_) (ih _ _ _ _)
    split
    · rw [TagContent.untrimmed_applyAll]
    · rfl
  | container kind fixed inner next ihInner ihNext =>
    rw [statements, visit, visitContainer]
    split
    · exact ihNext _ _ _ _
    split
    · rfl
    · rw [Statement.hear_append, ihInner _ _ (pos + Header.minSize + fixed.toList.length)]
      rcases inner.visit o (levels - 1) none (pos + Header.minSize + fixed.toList.length) c
        with ⟨_ | _ | _, d⟩
      · rfl
      · exact ihNext _ _ _ d
      · rfl

end Forest

namespace Audio

theorem untrimmed_completed (a : Audio) : a.completed.map untrimmed = a.untrimmed.completed := by
  rw [completed]
  split
  · rename_i haudio
    exact (if_pos haudio).symm
  rename_i haudio
  refine .trans ?_ (if_neg haudio).symm
  split
  · rename_i hcodec
    exact (if_pos hcodec).symm
  rename_i hcodec
  refine .trans ?_ (if_neg hcodec).symm
  split
  · rename_i hlength
    exact (if_pos hlength).symm
  · rename_i hlength
    exact (if_neg hlength).symm

end Audio

theorem Track.audio_completed (t : Track) :
    t.completed.map (fun m => m.audio) = t.audio.completed := by
  rw [Track.completed]
  cases t.audio.completed <;> rfl

namespace Statement

def record (o : Options) (ss : List Statement) : Except ReadError Audio :=
  match hear o ss {} with
  | (.ok _, a) => a.completed
  | (.error e, _) => .error e

end Statement

/-- The record of a file follows from what its atoms state, the samples to drop apart. -/
theorem Track.untrimmed_ofBytes (o : Options) (f : Forest) (hf : f.WellSized) :
    ((Track.ofBytes o f.octets).map fun m => m.audio.untrimmed) =
      Statement.record o (f.statements (Walk.maxDepth - 1) none) := by
  have hvisit := (Walk.follows o f hf (Walk.maxDepth - 1) none 0 (.start o) [] rfl).outcome
  rw [List.append_nil] at hvisit
  have hwalk : ((Walk.walk o f.octets.length).exec (.start o) (Slice.ofBytes f.octets)).1 =
      f.visit o (Walk.maxDepth - 1) none 0 (.start o) := hvisit
  have hhear : Statement.hear o (f.statements (Walk.maxDepth - 1) none) {} = _ :=
    f.visit_hear o (Walk.maxDepth - 1) none 0 (.start o)
  rw [Track.ofBytes, Track.read_eq, Statement.record, hwalk, hhear]
  rcases f.visit o (Walk.maxDepth - 1) none 0 (.start o) with ⟨e | step, c⟩
  · rfl
  · dsimp only
    rw [← Audio.untrimmed_completed, ← Track.audio_completed]
    cases c.track.completed <;> rfl

namespace Audio

def muted (a : Audio) : Audio :=
  { a with codec := .unknown, sampleRate := 0, samples := 0, durationsDoubled := false }

def uncounted (a : Audio) : Audio := { a with samples := 0, durationsDoubled := false }

end Audio

namespace Statement
variable {o : Options}

/-- Whether a statement sets the codec and the sample rate by itself. -/
def Complete (o : Options) : Statement → Prop
  | stream s => ∀ known known',
    s.apply o.implicitReplication known = s.apply o.implicitReplication known'
  | lossless _ => True
  | _ => False

/-- Whether statements describe the audio by themselves. -/
def SelfContained (o : Options) (ss : List Statement) : Prop :=
  ∃ before entry between runs behind,
    ss = before ++ entry :: (between ++ table runs :: behind) ∧ entry.Complete o

def told (o : Options) (ss : List Statement) (a : Audio) : Audio :=
  ss.foldl (fun a s => s.apply o a) a

theorem hear_told {ss : List Statement} (hd : ∀ size, data size ∉ ss) (hdeep : tooDeep ∉ ss)
    (a : Audio) : hear o ss a = (.ok .proceed, told o ss a) := by
  induction ss generalizing a with
  | nil => rfl
  | cons s ss ih =>
    have hend : s.end? (s.apply o a) = none := by
      cases s with
      | data size => exact absurd List.mem_cons_self (hd size)
      | tooDeep => exact absurd List.mem_cons_self hdeep
      | _ => rfl
    rw [hear, hend]
    exact ih (fun size h => hd size (List.mem_cons_of_mem _ h))
      (fun h => hdeep (List.mem_cons_of_mem _ h)) _

theorem hear_deep {ss : List Statement} (hd : ∀ size, data size ∉ ss) (hdeep : tooDeep ∈ ss)
    (a : Audio) : (hear o ss a).1 = .error .tooDeep := by
  induction ss generalizing a with
  | nil => cases hdeep
  | cons s ss ih =>
    have hrest (hne : tooDeep ≠ s) (a : Audio) : (hear o ss a).1 = .error .tooDeep :=
      ih (fun size h => hd size (List.mem_cons_of_mem _ h))
        ((List.mem_cons.mp hdeep).resolve_left hne) a
    cases s with
    | data size => exact absurd List.mem_cons_self (hd size)
    | tooDeep => rfl
    | table runs => exact hrest nofun _
    | stream s => exact hrest nofun _
    | lossless rate => exact hrest nofun _

theorem muted_told {ss : List Statement} (hd : ∀ size, data size ∉ ss) (a : Audio) :
    (told o ss a).muted = a.muted := by
  induction ss generalizing a with
  | nil => rfl
  | cons s ss ih =>
    have hmuted : (s.apply o a).muted = a.muted := by
      cases s with
      | data size => exact absurd List.mem_cons_self (hd size)
      | _ => rfl
    exact (ih (fun size h => hd size (List.mem_cons_of_mem _ h)) _).trans hmuted

theorem uncounted_told (ss : List Statement) {a b : Audio} (h : a.uncounted = b.uncounted) :
    (told o ss a).uncounted = (told o ss b).uncounted := by
  induction ss generalizing a b with
  | nil => exact h
  | cons s ss ih =>
    have hstep (a : Audio) : (s.apply o a).uncounted = (s.apply o a.uncounted).uncounted := by
      cases s <;> rfl
    exact ih (by rw [hstep a, hstep b, h])

/-- A complete entry makes up for what was not stated before. -/
theorem Complete.uncounted_apply {entry : Statement} (hentry : entry.Complete o) {a b : Audio}
    (h : a.muted = b.muted) : (entry.apply o a).uncounted = (entry.apply o b).uncounted := by
  cases entry with
  | lossless rate =>
    exact congrArg (fun a : Audio => { a with sampleRate := rate, codec := .alac }) h
  | stream s =>
    have hset (a : Audio) : (Content.withStream o s a).uncounted =
        let applied := s.apply o.implicitReplication a.sampleRate
        { a.muted with
          sampleRate := applied.1, codec := if applied.2 then .aacHe else .aac } := rfl
    rw [apply, apply, hset, hset, h, hentry a.sampleRate b.sampleRate]
  | table | data | tooDeep => exact hentry.elim

/-- The entry settles the codec and the rate, the table behind it the rest. -/
theorem SelfContained.told_eq {ss : List Statement} (hself : SelfContained o ss)
    (hd : ∀ size, data size ∉ ss) {a b : Audio} (h : a.muted = b.muted) :
    told o ss a = told o ss b := by
  obtain ⟨before, entry, between, runs, behind, rfl, hentry⟩ := hself
  have hbefore (size : Nat) (hmem : data size ∈ before) : False :=
    hd size (List.mem_append_left _ hmem)
  have hentered : ((entry.apply o (told o before a))).uncounted =
      ((entry.apply o (told o before b))).uncounted :=
    hentry.uncounted_apply (by rw [muted_told hbefore, muted_told hbefore, h])
  have hcounted (a : Audio) : Content.withRuns runs a = Content.withRuns runs a.uncounted := rfl
  have htable : Content.withRuns runs (told o between (entry.apply o (told o before a))) =
      Content.withRuns runs (told o between (entry.apply o (told o before b))) := by
    rw [hcounted, uncounted_told between hentered, ← hcounted]
  simp only [told, List.foldl_append, List.foldl_cons] at htable ⊢
  exact congrArg (fun a => behind.foldl (fun a s => s.apply o a) a) htable

/-- Statements before those that describe the audio by themselves make no difference. -/
theorem hear_last {opening earlier last closing : List Statement}
    (hd : ∀ size, data size ∉ earlier ++ last) (hself : SelfContained o last) {step : Walk.Step}
    {a b : Audio}
    (h : hear o (opening ++ (earlier ++ last) ++ closing) a = (.ok step, b)) :
    hear o (opening ++ last ++ closing) a = (.ok step, b) := by
  have hearlier (size : Nat) (hmem : data size ∈ earlier) : False :=
    hd size (List.mem_append_left _ hmem)
  have hlast (size : Nat) (hmem : data size ∈ last) : False :=
    hd size (List.mem_append_right _ hmem)
  rw [List.append_assoc, hear_append] at h ⊢
  generalize hear o opening a = opened at h ⊢
  obtain ⟨_ | _ | _, c⟩ := opened
  · exact h
  · dsimp only at h ⊢
    rw [hear_append] at h ⊢
    by_cases hdeep : tooDeep ∈ earlier ++ last
    · have herror := hear_deep (o := o) hd hdeep c
      generalize hear o (earlier ++ last) c = heard at herror h
      obtain ⟨_, d⟩ := heard
      subst herror
      cases h
    · have htold : told o (earlier ++ last) c = told o last c := by
        rw [told, List.foldl_append]
        exact hself.told_eq hlast (muted_told hearlier c)
      rw [hear_told hd hdeep, htold] at h
      rw [hear_told hlast fun hmem => hdeep (List.mem_append_right _ hmem)]
      exact h
  · exact h

theorem record_last {opening earlier last closing : List Statement}
    (hd : ∀ size, data size ∉ earlier ++ last) (hself : SelfContained o last) {a : Audio}
    (h : record o (opening ++ (earlier ++ last) ++ closing) = .ok a) :
    record o (opening ++ last ++ closing) = .ok a := by
  rw [record] at h ⊢
  generalize hrun : hear o (opening ++ (earlier ++ last) ++ closing) {} = run at h
  obtain ⟨e | step, b⟩ := run
  · cases h
  · rw [hear_last hd hself hrun]
    exact h

end Statement

end AudioAtoms
