import AudioAtoms.Proofs.Checked.Codec
import AudioAtoms.Proofs.Checked.Tags

/-!
# Checked walks

The walk over the atom tree, with every operation on words and buffers checked. Sizes are passed
down from parents to children and never exceed a word. The depth goes up and down by one with every
container.
-/
namespace AudioAtoms
open Checked

section Windows
variable {bounded inner : Bool} {ε α β γ : Type} {R : α → β → Prop} {Good : γ → Prop}

/-- Collecting readers that go on alike behind parallel scans in a window. -/
theorem Collect.guards_within {p : Scan bounded α} {q : Scan bounded β} (hp : p.Parallel R q)
    {size : Nat} (hsize : size < 2 ^ 64) {f : α × Window → Collect (Faulty ε) inner γ}
    {g : β × Window → Collect ε inner γ}
    (h : ∀ a b w, R a b → w.Valid → (f (a, w)).Guards (g (b, w)) Good) :
    (readGuarded (p.withinChecked (.ofSize size)) >>= f).Guards
      (ExceptT.lift (StateT.lift (q.within (.ofSize size))) >>= g) Good := by
  constructor
  intro c hc
  rw [runFrom_bind, runFrom_bind, runFrom_liftScan, Scan.bind_assoc]
  change Scan.Parallel _ ((Scan.bind _ _).bind _) _
  rw [Scan.bind_assoc]
  refine (hp.within (Window.valid_ofSize hsize)).bind ?_
  rintro _ ⟨b, w⟩ ⟨a, rfl, hR, hw⟩
  exact (h a b w hR hw).run c hc

end Windows

namespace TagList
open Collect
variable {bounded : Bool}

def readTagChecked (o : Options) (h : Header) : Collect (Faulty StreamError) bounded Unit := do
  let ((result, collected), window) ← readGuarded
    (((ReadTag.readChecked o h.kind).runFrom (← get)).withinChecked (.ofSize h.dataSize))
  set collected
  match result with
  | .ok () => pure ()
  | .error (.error e) =>
    if window.refused then note (.malformedTag h.kind e) else throw (.error e)
  | .error (.fault f) => throw (.fault f)
  readGuarded (.ofRead (Read.skip (← check (sub window.size window.used))))

def readChecked (o : Options) (budget : Nat) : Collect (Faulty StreamError) bounded Unit := do
  if _ : Header.minSize ≤ budget then
    let h ← readGuarded (Header.readChecked budget)
    readTagChecked o h
    readChecked o (h.leave budget)
  else
    readGuarded (.ofRead (Read.skip budget))
termination_by budget
decreasing_by exact h.leave_lt ‹_›

theorem guards_skip (n : Nat) :
    (readGuarded (.ofRead (Read.skip n)) : Collect (Faulty StreamError) bounded Unit).Guards
      (Collect.read (Read.skip n)) fun _ => True :=
  guards_readGuarded (Guarded.guards_ofRead (Read.yields_skip n))

theorem guards_readTag (o : Options) {h : Header} (hh : h.dataSize < 2 ^ 64) :
    (readTagChecked o h : Collect (Faulty StreamError) bounded Unit).Guards (readTag o h)
      fun _ => True := by
  refine guards_get.bind fun c hc =>
    guards_within ((ReadTag.guards_read o h.kind).run c hc) hh ?_
  rintro ⟨r, d⟩ ⟨s, _⟩ w ⟨hr, rfl, hd⟩ hw
  have hskip : (do
        readGuarded (.ofRead (Read.skip (← check (sub w.size w.used)))) :
        Collect (Faulty StreamError) bounded Unit).Guards (Collect.read (Read.skip w.left))
      fun _ => True :=
    guards_check (sub_ok hw.used) (guards_skip _)
  refine (guards_set hd).bind fun _ _ => ?_
  cases hr with
  | ok a _ => exact hskip
  | error e =>
    dsimp only
    by_cases hrefused : w.refused = true
    · rw [if_pos hrefused, if_pos hrefused]
      exact (guards_note _).bind fun _ _ => hskip
    · rw [if_neg hrefused, if_neg hrefused]
      exact ⟨fun _ hc => .done _ _ ⟨.error e, rfl, hc⟩⟩

theorem guards_read (o : Options) (budget : Nat) (hb : budget < 2 ^ 64) :
    (readChecked o budget : Collect (Faulty StreamError) bounded Unit).Guards
      (TagList.read o budget) fun _ => True := by
  induction budget using Nat.strongRecOn with
  | ind budget ih =>
    rw [readChecked, TagList.read]
    by_cases h : Header.minSize ≤ budget
    · rw [dif_pos h, dif_pos h]
      refine (guards_readGuarded (Header.guards_read hb)).bind fun header hheader =>
        (guards_readTag o hheader).bind fun _ _ => ?_
      have hlt := header.leave_lt h
      exact ih _ hlt (Nat.lt_trans hlt hb)
    · rw [dif_neg h, dif_neg h]
      exact guards_skip budget

end TagList

abbrev GuardedWalk := Collect (Faulty ReadError) false

namespace Walk
open Collect
variable {α : Type} {Good : α → Prop}

def liftChecked (p : Collect (Faulty StreamError) false α) : GuardedWalk α :=
  ExceptT.adapt (Faulty.map ReadError.stream) p

def readChecked (p : Guarded StreamError false α) : GuardedWalk α := liftChecked (readGuarded p)

def skipChecked (n : Nat) : GuardedWalk Unit := readChecked (.ofRead (Read.skip n))

def leafChecked (h : Header) (payload : Guarded StreamError true α) : GuardedWalk (Option α) :=
  readChecked (Leaf.readChecked h payload)

def enterChecked (child : Nat → GuardedWalk Step) (fixed dataSize : Nat) : GuardedWalk Step := do
  skipChecked (min fixed dataSize)
  child (← check (sub dataSize (min fixed dataSize)))

def passChecked (h : Header) : GuardedWalk Step := do
  skipChecked h.dataSize
  return .proceed

def sampleTableChecked (h : Header) : GuardedWalk Step := do
  if let some runs ← leafChecked h (.ofRead (SampleRun.readTable h.dataSize)) then
    modifyAudioChecked fun a => do
      let upsampled := a.codec = .aacHe
      return { a with
        samples := ← SampleRun.totalChecked upsampled runs
        durationsDoubled := runs.any (·.halved upsampled) }
  return .proceed

def aacEntryChecked (o : Options) (h : Header) : GuardedWalk Step := do
  if let some (some stream) ← leafChecked h (SampleEntry.aacChecked h.dataSize) then
    modifyAudioChecked fun a => do
      let (rate, replicated) ← stream.applyChecked o.implicitReplication a.sampleRate
      return { a with sampleRate := rate, codec := if replicated then .aacHe else .aac }
  return .proceed

def alacEntryChecked (h : Header) : GuardedWalk Step := do
  if let some (some rate) ← leafChecked h (SampleEntry.alacChecked h.dataSize) then
    modifyAudio fun a => { a with sampleRate := rate, codec := .alac }
  return .proceed

def chapterListChecked (h : Header) : GuardedWalk Step := do
  if let some (some tick) ← leafChecked h (.ofRead Leaf.firstChapter) then
    let trim ← check (Leaf.samplesBeforeChecked tick (← get).track.audio.sampleRate)
    note (.chapterTrim trim)
    modifyAudio fun a => { a with leadTrim := trim }
  return .proceed

def fileTypeChecked (h : Header) : GuardedWalk Step := do
  let brand ← leafChecked h (.ofRead Leaf.brand)
  modify fun c => { c with track := { c.track with brand := c.track.brand <|> brand } }
  return .proceed

def mediaDataChecked (h : Header) : GuardedWalk Step := do
  if h.dataSize = 0 then return .proceed
  modifyAudio fun a => { a with bytes := min (a.bytes + h.dataSize) (2 ^ 64 - 1) }
  if 0 < (← get).track.audio.samples then return .stop
  passChecked h

def tagListChecked (o : Options) (h : Header) : GuardedWalk Step := do
  liftChecked (TagList.readChecked o h.dataSize)
  return .proceed

def contentChecked (o : Options) (child : Nat → GuardedWalk Step) (handler : Option Handler)
    (h : Header) : GuardedWalk Step :=
  match h.kind with
  | .movie | .userData | .media | .sampleTable | .track => child h.dataSize
  | .metadata => enterChecked child 4 h.dataSize
  | .sampleDescription => enterChecked child 8 h.dataSize
  | .mediaInfo => if handler = some .sound then child h.dataSize else passChecked h
  | .tagList =>
    if handler = some .directory ∧ Header.minSize < h.dataSize then tagListChecked o h
    else passChecked h
  | .timeToSample => sampleTableChecked h
  | .aacEntry => aacEntryChecked o h
  | .alacEntry => alacEntryChecked h
  | .mediaData => mediaDataChecked h
  | .chapterList => chapterListChecked h
  | .fileType => fileTypeChecked h
  | _ => passChecked h

def atomChecked (o : Options) (child : Nat → GuardedWalk Step) (handler : Option Handler)
    (h : Header) : GuardedWalk (Step × Option Handler) := do
  if h.kind = .handler then
    return (.proceed, ← leafChecked h (.ofRead Leaf.handler))
  else
    return (← contentChecked o child handler h, handler)

def siblingsChecked (o : Options) (child : Nat → GuardedWalk Step) (handler : Option Handler)
    (budget : Nat) : GuardedWalk Step := do
  if _ : Header.minSize ≤ budget then
    let h ← readChecked (Header.readChecked budget)
    let (step, handler) ← atomChecked o child handler h
    match step with
    | .stop => return .stop
    | .proceed => siblingsChecked o child handler (h.leave budget)
  else
    skipChecked budget
    return .proceed
termination_by budget
decreasing_by exact h.leave_lt ‹_›

/-- The depth is one more inside of a container, and what it was behind it. -/
def forestChecked (o : Options) : Nat → Nat → GuardedWalk Step
  | 0, _ => throw (.error .tooDeep)
  | levels + 1, budget => do
    let inside ← check (add 64 (maxDepth - (levels + 1)) 1)
    let _ ← check (sub inside 1)
    siblingsChecked o (forestChecked o levels) none budget

def walkChecked (o : Options) (budget : Nat) : GuardedWalk Step := forestChecked o maxDepth budget

theorem guards_lift {p : Collect (Faulty StreamError) false α} {q : Collect StreamError false α}
    (hp : p.Guards q Good) : (liftChecked p).Guards (lift q) Good := by
  constructor
  intro c hc
  refine (hp.run c hc).bind ?_
  rintro ⟨_, d⟩ ⟨_, _⟩ ⟨⟨a, ha⟩ | e, rfl, hd⟩
  · exact .done _ _ ⟨.ok a ha, rfl, hd⟩
  · exact .done _ _ ⟨.error (ReadError.stream e), rfl, hd⟩

theorem guards_readHeader {budget : Nat} (hb : budget < 2 ^ 64) :
    (readChecked (Header.readChecked budget)).Guards (read (Header.read budget))
      (·.dataSize < 2 ^ 64) :=
  guards_lift (guards_readGuarded (Header.guards_read hb))

theorem guards_skip (n : Nat) : (skipChecked n).Guards (skip n) fun _ => True :=
  guards_lift (TagList.guards_skip n)

theorem guards_leaf {h : Header} (hh : h.dataSize < 2 ^ 64) {p : Guarded StreamError true α}
    {q : Read true α} (hp : p.Guards q Good) :
    (leafChecked h p).Guards (leaf h q) fun r => ∀ a, r = some a → Good a :=
  guards_lift (guards_readGuarded (Leaf.guards_read hh hp))

theorem guards_pass (h : Header) : (passChecked h).Guards (pass h) fun _ => True :=
  (guards_skip _).bind fun _ _ => guards_pure trivial

theorem guards_mediaData (h : Header) :
    (mediaDataChecked h).Guards (mediaData h) fun _ => True := by
  unfold mediaDataChecked mediaData
  by_cases h0 : h.dataSize = 0
  · rw [if_pos h0, if_pos h0]
    exact guards_pure trivial
  · rw [if_neg h0, if_neg h0]
    refine (guards_modifyAudio ?_).bind fun _ _ => guards_get.bind fun c _ => ?_
    · intro a ha
      exact ⟨ha.samples, ha.sampleRate, Nat.lt_of_le_of_lt (Nat.min_le_right _ _) (by decide)⟩
    · split
      · exact guards_pure trivial
      · exact guards_pass h

section Atoms
variable {o : Options} {h : Header} (hh : h.dataSize < 2 ^ 64)
include hh

theorem guards_sampleTable : (sampleTableChecked h).Guards (sampleTable h) fun _ => True := by
  refine (guards_leaf hh (Guarded.guards_ofRead (SampleRun.yields_readTable _))).bind
    fun found hfound => ?_
  cases found with
  | none => exact guards_pure trivial
  | some runs =>
    refine (guards_modifyAudioChecked ?_ ?_).bind fun _ _ => guards_pure trivial
    · intro a _
      dsimp only
      rw [SampleRun.totalChecked_eq (hfound runs rfl)]
      rfl
    · exact fun a ha => ⟨SampleRun.total_lt _ _, ha.sampleRate, ha.bytes⟩

theorem guards_aacEntry : (aacEntryChecked o h).Guards (aacEntry o h) fun _ => True := by
  refine (guards_leaf hh (SampleEntry.guards_aac hh)).bind fun found hfound => ?_
  obtain _ | _ | stream := found
  · exact guards_pure trivial
  · exact guards_pure trivial
  · refine (guards_modifyAudioChecked ?_ ?_).bind fun _ _ => guards_pure trivial
    · intro a _
      dsimp only
      rw [ElementaryStream.applyChecked_eq (hfound _ rfl stream rfl)]
      rfl
    · exact fun a ha => ⟨ha.samples, stream.apply_lt _ ha.sampleRate, ha.bytes⟩

theorem guards_alacEntry : (alacEntryChecked h).Guards (alacEntry h) fun _ => True := by
  refine (guards_leaf hh (SampleEntry.guards_alac hh)).bind fun found hfound => ?_
  obtain _ | _ | rate := found
  · exact guards_pure trivial
  · exact guards_pure trivial
  · refine (guards_modifyAudio ?_).bind fun _ _ => guards_pure trivial
    exact fun a ha => ⟨ha.samples, hfound _ rfl rate rfl, ha.bytes⟩

theorem guards_chapterList : (chapterListChecked h).Guards (chapterList h) fun _ => True := by
  refine (guards_leaf hh (Guarded.guards_ofRead Leaf.yields_firstChapter)).bind
    fun found hfound => ?_
  obtain _ | _ | tick := found
  · exact guards_pure trivial
  · exact guards_pure trivial
  · refine guards_get.bind fun c hc =>
      guards_check (Leaf.samplesBeforeChecked_eq (hfound _ rfl tick rfl) hc.audio.sampleRate) ?_
    refine (guards_note _).bind fun _ _ =>
      (guards_modifyAudio ?_).bind fun _ _ => guards_pure trivial
    exact fun a ha => ⟨ha.samples, ha.sampleRate, ha.bytes⟩

theorem guards_fileType : (fileTypeChecked h).Guards (fileType h) fun _ => True := by
  refine (guards_leaf hh (Guarded.guards_ofRead Leaf.yields_brand)).bind fun brand _ =>
    (guards_modify ?_).bind fun _ _ => guards_pure trivial
  exact fun c hc => ⟨⟨hc.audio.samples, hc.audio.sampleRate, hc.audio.bytes⟩, hc.arena⟩

theorem guards_tagList : (tagListChecked o h).Guards (tagList o h) fun _ => True :=
  (guards_lift (TagList.guards_read o _ hh)).bind fun _ _ => guards_pure trivial

variable {child : Nat → GuardedWalk Step} {child' : Nat → Walk Step}
  (hchild : ∀ n < 2 ^ 64, (child n).Guards (child' n) fun _ => True)
include hchild

theorem guards_enter (fixed : Nat) :
    (enterChecked child fixed h.dataSize).Guards (enter child' fixed h.dataSize) fun _ => True :=
  (guards_skip _).bind fun _ _ => guards_check (sub_ok (Nat.min_le_right _ _))
    (hchild _ (Nat.lt_of_le_of_lt (Nat.sub_le _ _) hh))

theorem guards_content (handler : Option Handler) :
    (contentChecked o child handler h).Guards (content o child' handler h) fun _ => True := by
  unfold contentChecked content
  cases h.kind with
  | movie | userData | media | sampleTable | track => exact hchild _ hh
  | metadata | sampleDescription => exact guards_enter hh hchild _
  | mediaInfo =>
    dsimp only
    split
    · exact hchild _ hh
    · exact guards_pass h
  | tagList =>
    dsimp only
    split
    · exact guards_tagList hh
    · exact guards_pass h
  | timeToSample => exact guards_sampleTable hh
  | aacEntry => exact guards_aacEntry hh
  | alacEntry => exact guards_alacEntry hh
  | mediaData => exact guards_mediaData h
  | chapterList => exact guards_chapterList hh
  | fileType => exact guards_fileType hh
  | _ => exact guards_pass h

theorem guards_atom (handler : Option Handler) :
    (atomChecked o child handler h).Guards (atom o child' handler h) fun _ => True := by
  unfold atomChecked atom
  by_cases hk : h.kind = .handler
  · rw [if_pos hk, if_pos hk]
    exact (guards_leaf hh (Guarded.guards_ofRead Leaf.yields_handler)).bind fun _ _ =>
      guards_pure trivial
  · rw [if_neg hk, if_neg hk]
    exact (guards_content hh hchild handler).bind fun _ _ => guards_pure trivial

end Atoms

theorem guards_siblings {o : Options} {child : Nat → GuardedWalk Step} {child' : Nat → Walk Step}
    (hchild : ∀ n < 2 ^ 64, (child n).Guards (child' n) fun _ => True) (handler : Option Handler)
    (budget : Nat) (hb : budget < 2 ^ 64) :
    (siblingsChecked o child handler budget).Guards (siblings o child' handler budget)
      fun _ => True := by
  induction budget using Nat.strongRecOn generalizing handler with
  | ind budget ih =>
    rw [siblingsChecked, siblings]
    by_cases h : Header.minSize ≤ budget
    · rw [dif_pos h, dif_pos h]
      refine (guards_readHeader hb).bind fun header hheader =>
        (guards_atom hheader hchild handler).bind fun r _ => ?_
      obtain ⟨_ | _, handler'⟩ := r
      · have hlt := header.leave_lt h
        exact ih _ hlt handler' (Nat.lt_trans hlt hb)
      · exact guards_pure trivial
    · rw [dif_neg h, dif_neg h]
      exact (guards_skip budget).bind fun _ _ => guards_pure trivial

theorem guards_forest (o : Options) (levels : Nat) (budget : Nat) (hb : budget < 2 ^ 64) :
    (forestChecked o levels budget).Guards (forest o levels budget) fun _ => True := by
  induction levels generalizing budget with
  | zero => exact guards_throw _
  | succ levels ih =>
    have hdepth : maxDepth - (levels + 1) + 1 < 2 ^ 64 := by
      unfold maxDepth
      omega
    exact guards_check (add_ok hdepth) (guards_check (sub_ok (Nat.le_add_left _ _))
      (guards_siblings ih none budget hb))

end Walk

end AudioAtoms
