import AudioAtoms.Proofs.Shortage
import AudioAtoms.Proofs.Traversal

/-!
# What the atoms of a parent take

An atom that declares more than its parent has left is read to its declared end, which lies behind
the end of the parent. There is no other way out: where every atom met fits into its parent, the
walk stays inside its budget, and a walk that reaches the end of its budget stays inside only then.
-/
namespace AudioAtoms

/-- An atom met in a parent with `budget` octets left. -/
structure Met where
  budget : Nat
  header : Header
deriving DecidableEq, Repr

def Met.Fits (a : Met) : Prop := a.header.size ≤ a.budget

instance (a : Met) : Decidable a.Fits := inferInstanceAs (Decidable (_ ≤ _))

namespace TagList

def met (o : Options) (budget : Nat) (c : Collected) (s : Slice) : List Met :=
  if _ : Header.minSize ≤ budget then
    match (Header.read budget : Read false Header).exec s with
    | (.ok h, t) =>
      ⟨budget, h⟩ ::
        match (readTag o h : Collect StreamError false Unit).exec c t with
        | ((.ok _, d), u) => met o (h.leave budget) d u
        | _ => []
    | _ => []
  else []
termination_by budget
decreasing_by exact h.leave_lt ‹_›

end TagList

namespace Walk

def enterMet (childMet : Nat → Collected → Slice → List Met) (fixed dataSize : Nat) (c : Collected)
    (s : Slice) : List Met :=
  match (skip (min fixed dataSize)).exec c s with
  | ((.ok _, d), t) => childMet (dataSize - min fixed dataSize) d t
  | _ => []

def contentMet (o : Options) (childMet : Nat → Collected → Slice → List Met)
    (handler : Option Handler) (h : Header) : Collected → Slice → List Met :=
  match h.kind with
  | .movie | .userData | .media | .sampleTable | .track => childMet h.dataSize
  | .metadata => enterMet childMet 4 h.dataSize
  | .sampleDescription => enterMet childMet 8 h.dataSize
  | .mediaInfo => if handler = some .sound then childMet h.dataSize else fun _ _ => []
  | .tagList =>
    if handler = some .directory ∧ Header.minSize < h.dataSize then TagList.met o h.dataSize
    else fun _ _ => []
  | _ => fun _ _ => []

def siblingsMet (o : Options) (child : Nat → Walk Step)
    (childMet : Nat → Collected → Slice → List Met) (handler : Option Handler) (budget : Nat)
    (c : Collected) (s : Slice) : List Met :=
  if _ : Header.minSize ≤ budget then
    match (Header.read budget : Read false Header).exec s with
    | (.ok h, t) =>
      ⟨budget, h⟩ :: contentMet o childMet handler h c t ++
        match (atom o child handler h).exec c t with
        | ((.ok (.proceed, handler), d), u) =>
          siblingsMet o child childMet handler (h.leave budget) d u
        | _ => []
    | _ => []
  else []
termination_by budget
decreasing_by exact h.leave_lt ‹_›

def forestMet (o : Options) : Nat → Nat → Collected → Slice → List Met
  | 0, _ => fun _ _ => []
  | levels + 1, budget => siblingsMet o (forest o levels) (forestMet o levels) none budget

def met (o : Options) (budget : Nat) : Collected → Slice → List Met := forestMet o maxDepth budget

end Walk

/-- The run from `start` to `finish` was to take `n` octets and met some atoms. It stays inside if
all of them fit. A whole run reaches the end, and goes beyond it if some atom does not fit. -/
structure Spans (start n : Nat) (met : List Met) (whole : Prop) (finish : Nat) : Prop where
  inside : (∀ a ∈ met, a.Fits) → finish ≤ start + n
  reaches : whole → start + n ≤ finish
  fits : whole → finish ≤ start + n → ∀ a ∈ met, a.Fits

namespace Spans
variable {start mid finish n n₁ n₂ budget : Nat} {met met₁ met₂ : List Met} {w w₁ w₂ : Prop}

theorem plain (hle : finish ≤ start + n) (heq : w → finish = start + n) :
    Spans start n [] w finish where
  inside _ := hle
  reaches hw := Nat.le_of_eq (heq hw).symm
  fits _ _ _ ha := nomatch ha

theorem broken (hinside : (∀ a ∈ met, a.Fits) → finish ≤ start + n) (hw : ¬w) :
    Spans start n met w finish where
  inside := hinside
  reaches h := absurd h hw
  fits h := absurd h hw

theorem behind (h₁ : Spans start n₁ [] w₁ mid) (h₂ : Spans mid n₂ met w₂ finish)
    (hw : w → w₁ ∧ w₂) : Spans start (n₁ + n₂) met w finish := by
  have hmid := h₁.inside (by nofun)
  refine ⟨?_, ?_, ?_⟩
  · intro hfits
    have := h₂.inside hfits
    omega
  · intro h
    have := h₁.reaches (hw h).1
    have := h₂.reaches (hw h).2
    omega
  · intro h hle
    have := h₁.reaches (hw h).1
    exact h₂.fits (hw h).2 (by omega)

/-- An atom whose payload was all read, with its later siblings. -/
theorem atom (h : Header) (h₁ : Spans (start + h.ownSize) h.dataSize met₁ w₁ mid)
    (h₂ : Spans mid (h.leave budget) met₂ w₂ finish) (hw : w → w₁ ∧ w₂) :
    Spans start budget (⟨budget, h⟩ :: met₁ ++ met₂) w finish := by
  have hsize : h.size = h.ownSize + h.dataSize := rfl
  have hleave : h.leave budget = budget - h.size := rfl
  simp only [List.cons_append]
  refine ⟨?_, ?_, ?_⟩
  · intro hfits
    have hfit : h.size ≤ budget := hfits ⟨budget, h⟩ List.mem_cons_self
    have := h₁.inside fun a ha =>
      hfits a (List.mem_cons_of_mem _ (List.mem_append_left _ ha))
    have := h₂.inside fun a ha =>
      hfits a (List.mem_cons_of_mem _ (List.mem_append_right _ ha))
    omega
  · intro hall
    have := h₁.reaches (hw hall).1
    have := h₂.reaches (hw hall).2
    omega
  · intro hall hle
    have hmid := h₁.reaches (hw hall).1
    have hfinish := h₂.reaches (hw hall).2
    have hfit : h.size ≤ budget := by omega
    intro a ha
    rcases List.mem_cons.mp ha with rfl | ha
    · exact hfit
    rcases List.mem_append.mp ha with ha | ha
    · exact h₁.fits (hw hall).1 (by omega) a ha
    · exact h₂.fits (hw hall).2 (by omega) a ha

/-- An atom at which the run ended. -/
theorem last (h : Header) (h₁ : Spans (start + h.ownSize) h.dataSize met₁ w₁ finish) (hw : ¬w) :
    Spans start budget (⟨budget, h⟩ :: met₁ ++ []) w finish := by
  refine broken ?_ hw
  intro hfits
  rw [List.append_nil] at hfits
  have hfit : h.ownSize + h.dataSize ≤ budget := hfits ⟨budget, h⟩ List.mem_cons_self
  have := h₁.inside fun a ha => hfits a (List.mem_cons_of_mem _ ha)
  omega

end Spans

theorem Slice.exec_exactly (n : Nat) (s : Slice) :
    (Read.exactly n : Read false Bytes).exec s =
      if n ≤ s.rest.length then (.ok (s.rest.take n), s.advance n) else (.error .underrun, s) := by
  rw [Read.exec_exactly, Slice.answer_exactly]

theorem Slice.exec_number_bind {α : Type} (n : Nat) (s : Slice) (f : Nat → Read false α) :
    (Read.number n >>= f).exec s =
      if n ≤ s.rest.length then (f (Bytes.toNat (s.rest.take n))).exec (s.advance n)
      else (.error .underrun, s) :=
  Read.exec_bind_ite (Read.exec_bind_ite (exec_exactly n s) _) f

theorem Slice.exec_code_bind {α : Type} (s : Slice) (f : Code → Read false α) :
    (Read.code >>= f).exec s =
      if 4 ≤ s.rest.length then (f (.ofBytes (s.rest.take 4))).exec (s.advance 4)
      else (.error .underrun, s) :=
  Read.exec_bind_ite (Read.exec_bind_ite (exec_exactly 4 s) _) f

/-- A header that is there takes its own size, one that is not takes less than the least size of an
atom. -/
theorem Header.exec_read_cases (budget : Nat) (s : Slice) :
    (∃ h t, (Header.read budget : Read false Header).exec s = (.ok h, t) ∧
      t.pos = s.pos + h.ownSize) ∨
    ∃ e t, (Header.read budget : Read false Header).exec s = (.error e, t) ∧
      t.pos ≤ s.pos + Header.minSize := by
  have hsmall (e : StreamError) (t : Slice) (ht : t.pos ≤ s.pos + 8) :
      ∃ e' t', ((.error e, t) : Except StreamError Header × Slice) = (.error e', t') ∧
        t'.pos ≤ s.pos + Header.minSize := ⟨e, t, rfl, ht⟩
  rw [Header.read, Slice.exec_number_bind]
  rcases Nat.lt_or_ge s.rest.length 4 with h4 | h4
  · rw [if_neg (Nat.not_le_of_lt h4)]
    exact .inr (hsmall _ _ (by omega))
  rw [if_pos h4, Slice.exec_code_bind]
  rcases Nat.lt_or_ge (s.advance 4).rest.length 4 with h8 | h8
  · rw [if_neg (Nat.not_le_of_lt h8)]
    exact .inr (hsmall _ _ (by simp only [Slice.advance]; omega))
  rw [if_pos h8]
  generalize Bytes.toNat (s.rest.take 4) = declared
  by_cases h0 : declared = 0
  · rw [if_pos h0]
    exact .inl ⟨_, _, rfl, rfl⟩
  rw [if_neg h0]
  by_cases h1 : declared = 1
  · rw [if_pos h1, Slice.exec_number_bind]
    by_cases h16 : 8 ≤ ((s.advance 4).advance 4).rest.length
    · rw [if_pos h16]
      exact .inl ⟨_, _, rfl, rfl⟩
    · rw [if_neg h16]
      exact .inr (hsmall _ _ (by simp only [Slice.advance]; omega))
  rw [if_neg h1]
  by_cases hs : declared < Header.minSize
  · rw [if_pos hs]
    exact .inl ⟨_, _, rfl, rfl⟩
  · rw [if_neg hs]
    exact .inl ⟨_, _, rfl, rfl⟩

namespace Collect
variable {ε α β : Type}

def Whole (p : Collect ε false α) (goes : α → Prop) (c : Collected) (s : Slice) : Prop :=
  (∃ a, (p.exec c s).1.1 = .ok a ∧ goes a) ∧ ¬p.Cut c s

/-- Every run of the reader was to take `n` octets and meets the given atoms. -/
def Takes (p : Collect ε false α) (goes : α → Prop) (n : Nat)
    (met : Collected → Slice → List Met) : Prop :=
  ∀ c s, Spans s.pos n (met c s) (p.Whole goes c s) (p.exec c s).2.pos

variable {p : Collect ε false α} {f : α → Collect ε false β} {goes : β → Prop} {n n₁ n₂ : Nat}
  {met met' : Collected → Slice → List Met}

theorem takes_idle {goes : α → Prop} (hp : ∀ c (s : Slice), (p.exec c s).2 = s) :
    p.Takes goes 0 fun _ _ => [] := by
  intro c s
  rw [hp]
  exact .plain (Nat.le_refl _) fun _ => rfl

theorem Whole.behind {c d : Collected} {s t : Slice} {a : α} (hw : (p >>= f).Whole goes c s)
    (h : p.exec c s = ((.ok a, d), t)) : (f a).Whole goes d t := by
  obtain ⟨hok, hcut⟩ := hw
  rw [exec_bind_ok h] at hok
  rw [cut_bind_ok h] at hcut
  exact ⟨hok, fun hf => hcut (.inr hf)⟩

theorem Whole.split {goes₁ : α → Prop} {c d : Collected} {s t : Slice} {a : α}
    (hw : (p >>= f).Whole goes c s) (h : p.exec c s = ((.ok a, d), t)) (ha : goes₁ a) :
    p.Whole goes₁ c s ∧ (f a).Whole goes d t := by
  refine ⟨⟨⟨a, by rw [h], ha⟩, fun hp => hw.2 ?_⟩, hw.behind h⟩
  rw [cut_bind_ok h]
  exact .inl hp

theorem not_whole_error {c d : Collected} {s t : Slice} {e : ε} {goes : α → Prop}
    (h : p.exec c s = ((.error e, d), t)) : ¬p.Whole goes c s := by
  rintro ⟨⟨a, ha, -⟩, -⟩
  rw [h] at ha
  cases ha

/-- First something without atoms, then the rest. -/
theorem Takes.bind (hp : p.Takes (fun _ => True) n₁ fun _ _ => [])
    (hf : ∀ a, (f a).Takes goes n₂ met)
    (hmet : ∀ c s a d t, p.exec c s = ((.ok a, d), t) → met' c s = met d t) :
    (p >>= f).Takes goes (n₁ + n₂) met' := by
  intro c s
  rcases hr : p.exec c s with ⟨⟨e | a, d⟩, t⟩
  · have hle := (hp c s).inside (by nofun)
    rw [exec_bind_error hr]
    rw [hr] at hle
    refine .broken (fun _ => Nat.le_trans hle (by omega)) (not_whole_error (exec_bind_error hr f))
  · have h₁ := hp c s
    have h₂ := hf a d t
    rw [hr] at h₁
    rw [exec_bind_ok hr, hmet c s a d t hr]
    exact h₁.behind h₂ fun hw => hw.split hr trivial

theorem Takes.behind_idle (hp : ∀ c (s : Slice), (p.exec c s).2 = s)
    (hf : ∀ a, (f a).Takes goes n fun _ _ => []) : (p >>= f).Takes goes n fun _ _ => [] := by
  have h := (takes_idle hp).bind hf fun _ _ _ _ _ _ => rfl
  rw [Nat.zero_add] at h
  exact h

/-- A reader whose result is only looked at. -/
theorem Takes.map {goes' : β → Prop} {goes : α → Prop} (hp : p.Takes goes n met) (g : α → β)
    (hgoes : ∀ a, goes' (g a) → goes a) : (p >>= fun a => pure (g a)).Takes goes' n met := by
  intro c s
  have h := hp c s
  rcases hr : p.exec c s with ⟨⟨e | a, d⟩, t⟩
  · rw [hr] at h
    rw [exec_bind_error hr]
    exact .broken h.inside (not_whole_error (exec_bind_error hr _))
  · rw [hr] at h
    rw [exec_bind_ok hr]
    have hwhole : (p >>= fun a => pure (g a)).Whole goes' c s → p.Whole goes c s := by
      rintro ⟨⟨b, hb, hg⟩, hcut⟩
      rw [exec_bind_ok hr] at hb
      obtain rfl : g a = b := Except.ok.inj hb
      rw [cut_bind_ok hr] at hcut
      exact ⟨⟨a, by rw [hr], hgoes a hg⟩, fun hp => hcut (.inl hp)⟩
    exact ⟨h.inside, fun hw => h.reaches (hwhole hw), fun hw => h.fits (hwhole hw)⟩

end Collect

theorem Collect.takes_lift {α : Type} {p : Collect StreamError false α} {goes : α → Prop} {n : Nat}
    {met : Collected → Slice → List Met} (hp : p.Takes goes n met) :
    (Walk.lift p).Takes goes n met := by
  intro c s
  have h := hp c s
  have hwhole : (Walk.lift p).Whole goes c s → p.Whole goes c s := by
    rintro ⟨⟨a, ha, hg⟩, hcut⟩
    rw [Walk.exec_lift] at ha
    rw [Walk.cut_lift] at hcut
    rcases hr : (p.exec c s).1.1 with e | b
    · rw [hr] at ha
      cases ha
    · rw [hr] at ha
      cases ha
      exact ⟨⟨a, hr, hg⟩, hcut⟩
  rw [Walk.exec_lift]
  exact ⟨h.inside, fun hw => h.reaches (hwhole hw), fun hw => h.fits (hwhole hw)⟩

theorem Collect.takes_skip (n : Nat) :
    (read (Read.skip n) : Collect StreamError false Unit).Takes (fun _ => True) n
      fun _ _ => [] := by
  intro c s
  rw [exec_read, Read.exec_skip, Slice.answer_skip]
  by_cases h : n ≤ s.rest.length
  · rw [if_pos h]
    exact .plain (Nat.le_refl _) fun _ => rfl
  · rw [if_neg h]
    refine .plain (Nat.le_add_right _ _) ?_
    rintro ⟨⟨a, ha, -⟩, -⟩
    rw [exec_read, Read.exec_skip, Slice.answer_skip, if_neg h] at ha
    cases ha

theorem TagList.takes_readTag (o : Options) (h : Header) :
    (readTag o h : Collect StreamError false Unit).Takes (fun _ => True) h.dataSize
      fun _ _ => [] := by
  intro c s
  have hcandid := (ReadTag.strict_readTag o h.kind).candid c
  rw [Collect.exec, runFrom_readTag]
  refine .plain (TagList.closes h.kind).pos_le ?_
  rintro ⟨⟨a, ha, -⟩, hcut⟩
  rw [Collect.exec, runFrom_readTag] at ha
  rw [Collect.Cut, runFrom_readTag] at hcut
  exact (TagList.closes h.kind).pos_eq hcandid (congrArg StreamError.of? ha) hcut

theorem TagList.takes_read (o : Options) (budget : Nat) :
    (read o budget : Collect StreamError false Unit).Takes (fun _ => True) budget
      (met o budget) := by
  induction budget using Nat.strongRecOn with
  | ind budget ih =>
    intro c s
    rw [read, met]
    by_cases hb : Header.minSize ≤ budget
    · rw [dif_pos hb, dif_pos hb]
      rcases Header.exec_read_cases budget s with ⟨h, t, hr, hpos⟩ | ⟨e, t, hr, hpos⟩
      · have hhead : (Collect.read (Header.read budget) : Collect StreamError false Header).exec c s =
            ((.ok h, c), t) := by
          rw [Collect.exec_read, hr]
        have htag := takes_readTag o h c t
        rw [hpos] at htag
        rw [Collect.exec_bind_ok hhead]
        simp only [hr]
        rcases hx : (readTag o h : Collect StreamError false Unit).exec c t with ⟨⟨e | v, d⟩, u⟩
        · rw [hx] at htag
          rw [Collect.exec_bind_error hx]
          refine htag.last h fun hw => ?_
          exact Collect.not_whole_error (Collect.exec_bind_error hx _) (hw.behind hhead)
        · rw [hx] at htag
          rw [Collect.exec_bind_ok hx]
          refine htag.atom h (ih _ (h.leave_lt hb) d u) fun hw => ?_
          exact (hw.behind hhead).split hx trivial
      · have hhead : (Collect.read (Header.read budget) : Collect StreamError false Header).exec c s =
            ((.error e, c), t) := by
          rw [Collect.exec_read, hr]
        rw [Collect.exec_bind_error hhead]
        refine .broken (fun _ => Nat.le_trans hpos (Nat.add_le_add_left hb _)) ?_
        exact Collect.not_whole_error (Collect.exec_bind_error hhead _)
    · rw [dif_neg hb, dif_neg hb]
      exact Collect.takes_skip budget c s

theorem TagList.quiet_readTag (o : Options) (h : Header) :
    (readTag o h : Collect StreamError false Unit).Quiet := by
  intro c
  have hpayload : ((ReadTag.read o h.kind).runFrom c).Quiet := by
    refine (ReadTag.strict_readTag o h.kind c).quiet ?_
    rintro e t ⟨d, rfl⟩
    exact .done _
  rw [runFrom_readTag]
  exact (Window.quiet_within hpayload _).bind (TagList.closes h.kind).quiet

theorem TagList.quiet_read (o : Options) (budget : Nat) :
    (read o budget : Collect StreamError false Unit).Quiet :=
  read_of_parts (P := fun p => p.Quiet) Collect.Quiet.bind
    (fun n => Collect.quiet_read (Header.strict_read n))
    (fun n => Collect.quiet_read (Read.strict_skip n)) (quiet_readTag o) budget

namespace Walk
open Collect
variable {α : Type}

theorem takes_pass (h : Header) : (pass h).Takes (· = .proceed) h.dataSize fun _ _ => [] :=
  (takes_lift (takes_skip h.dataSize)).map (fun _ => Step.proceed) fun _ _ => trivial

theorem takes_leaf (h : Header) {p : Read true α} (hp : p.Watchful) :
    (leaf h p).Takes (fun _ => True) h.dataSize fun _ _ => [] := by
  refine takes_lift fun c s => ?_
  rw [exec_read, Read.exec, Leaf.run_read]
  refine .plain (Leaf.closes h.kind).pos_le ?_
  rintro ⟨⟨a, ha, -⟩, hcut⟩
  rw [exec_read, Read.exec, Leaf.run_read] at ha
  rw [cut_read, Leaf.run_read] at hcut
  exact (Leaf.closes h.kind).pos_eq hp.candid (congrArg StreamError.of? ha) hcut

/-- A leaf whose content goes into the record. -/
theorem takes_leaf_bind (h : Header) {p : Read true α} (hp : p.Watchful) {f : Option α → Walk Step}
    (hf : ∀ r c (s : Slice), ((f r).exec c s).2 = s) :
    (leaf h p >>= f).Takes (· = .proceed) h.dataSize fun _ _ => [] :=
  (takes_leaf h hp).bind (fun r => takes_idle (hf r)) fun _ _ _ _ _ _ => rfl

theorem takes_sampleTable (h : Header) :
    (sampleTable h).Takes (· = .proceed) h.dataSize fun _ _ => [] := by
  refine takes_leaf_bind h (SampleRun.strict_readTable _).watchful ?_
  rintro (_ | runs) c s <;> rfl

theorem takes_aacEntry (o : Options) (h : Header) :
    (aacEntry o h).Takes (· = .proceed) h.dataSize fun _ _ => [] := by
  refine takes_leaf_bind h (SampleEntry.watchful_aac _) ?_
  rintro (_ | _ | stream) c s <;> rfl

theorem takes_alacEntry (h : Header) :
    (alacEntry h).Takes (· = .proceed) h.dataSize fun _ _ => [] := by
  refine takes_leaf_bind h (SampleEntry.strict_alac _).watchful ?_
  rintro (_ | _ | rate) c s <;> rfl

theorem takes_chapterList (h : Header) :
    (chapterList h).Takes (· = .proceed) h.dataSize fun _ _ => [] := by
  refine takes_leaf_bind h Leaf.strict_firstChapter.watchful ?_
  rintro (_ | _ | tick) c s <;> rfl

theorem takes_fileType (h : Header) :
    (fileType h).Takes (· = .proceed) h.dataSize fun _ _ => [] :=
  takes_leaf_bind h Leaf.strict_brand.watchful fun _ _ _ => rfl

/-- Audio data at which the walk stops is not passed over. -/
theorem takes_mediaData (h : Header) :
    (mediaData h).Takes (· = .proceed) h.dataSize fun _ _ => [] := by
  by_cases h0 : h.dataSize = 0
  · rw [mediaData, if_pos h0, h0]
    exact takes_idle fun _ _ => rfl
  · rw [mediaData, if_neg h0]
    refine .behind_idle (fun _ _ => rfl) fun _ => .behind_idle (fun _ _ => rfl) fun c => ?_
    by_cases hs : 0 < c.track.audio.samples
    · rw [if_pos hs]
      intro d s
      refine .broken (fun _ => Nat.le_add_right _ _) ?_
      rintro ⟨⟨a, ha, rfl⟩, -⟩
      cases ha
    · rw [if_neg hs]
      exact takes_pass h

theorem takes_tagList (o : Options) (h : Header)
    (hread : (TagList.read o h.dataSize : Collect StreamError false Unit).Takes (fun _ => True)
      h.dataSize (TagList.met o h.dataSize)) :
    (tagList o h).Takes (· = .proceed) h.dataSize (TagList.met o h.dataSize) :=
  (takes_lift hread).map (fun _ => Step.proceed) fun _ _ => trivial

variable {child : Nat → Walk Step} {childMet : Nat → Collected → Slice → List Met}

theorem takes_enter (hchild : ∀ n, (child n).Takes (· = .proceed) n (childMet n))
    (fixed dataSize : Nat) :
    (enter child fixed dataSize).Takes (· = .proceed) dataSize
      (enterMet childMet fixed dataSize) := by
  have hsize : min fixed dataSize + (dataSize - min fixed dataSize) = dataSize := by omega
  have h := (takes_lift (takes_skip (min fixed dataSize))).bind
    (fun _ => hchild (dataSize - min fixed dataSize))
    (fun c s a d t hr => show enterMet childMet fixed dataSize c s = _ by
      rw [enterMet, skip, read, hr])
  rw [hsize] at h
  exact h

/-- An atom takes what it declares as far as the atoms inside it fit. -/
theorem takes_content (o : Options) (hchild : ∀ n, (child n).Takes (· = .proceed) n (childMet n))
    (htags : ∀ n, (TagList.read o n : Collect StreamError false Unit).Takes (fun _ => True) n
      (TagList.met o n)) (handler : Option Handler) (h : Header) :
    (content o child handler h).Takes (· = .proceed) h.dataSize
      (contentMet o childMet handler h) := by
  obtain ⟨kind, wide, dataSize⟩ := h
  cases kind with
  | movie | userData | media | sampleTable | track => exact hchild dataSize
  | metadata => exact takes_enter hchild 4 dataSize
  | sampleDescription => exact takes_enter hchild 8 dataSize
  | mediaInfo =>
    simp only [content, contentMet]
    by_cases hs : handler = some .sound
    · rw [if_pos hs, if_pos hs]
      exact hchild dataSize
    · rw [if_neg hs, if_neg hs]
      exact takes_pass _
  | tagList =>
    simp only [content, contentMet]
    by_cases hd : handler = some .directory ∧ Header.minSize < dataSize
    · rw [if_pos hd, if_pos hd]
      exact takes_tagList o _ (htags dataSize)
    · rw [if_neg hd, if_neg hd]
      exact takes_pass _
  | timeToSample => exact takes_sampleTable _
  | aacEntry => exact takes_aacEntry o _
  | alacEntry => exact takes_alacEntry _
  | mediaData => exact takes_mediaData _
  | chapterList => exact takes_chapterList _
  | fileType => exact takes_fileType _
  | _ => exact takes_pass _

theorem takes_atom (o : Options) (hchild : ∀ n, (child n).Takes (· = .proceed) n (childMet n))
    (htags : ∀ n, (TagList.read o n : Collect StreamError false Unit).Takes (fun _ => True) n
      (TagList.met o n)) (handler : Option Handler) (h : Header) :
    (atom o child handler h).Takes (·.1 = .proceed) h.dataSize
      (contentMet o childMet handler h) := by
  unfold atom
  by_cases hk : h.kind = .handler
  · rw [if_pos hk, contentMet, hk]
    exact (takes_leaf h Leaf.strict_handler.watchful).map (fun r => (Step.proceed, r))
      fun _ _ => trivial
  · rw [if_neg hk]
    exact (takes_content o hchild htags handler h).map (fun step => (step, handler)) fun _ hs => hs

theorem takes_siblings (o : Options) (hchild : ∀ n, (child n).Takes (· = .proceed) n (childMet n))
    (handler : Option Handler) (budget : Nat) :
    (siblings o child handler budget).Takes (· = .proceed) budget
      (siblingsMet o child childMet handler budget) := by
  induction budget using Nat.strongRecOn generalizing handler with
  | ind budget ih =>
    intro c s
    rw [siblings, siblingsMet]
    by_cases hb : Header.minSize ≤ budget
    · rw [dif_pos hb, dif_pos hb]
      rcases Header.exec_read_cases budget s with ⟨h, t, hr, hpos⟩ | ⟨e, t, hr, hpos⟩
      · have hhead : (read (Header.read budget)).exec c s = ((.ok h, c), t) := by
          rw [read, exec_lift, exec_read, hr]
          rfl
        have hatom := takes_atom o hchild (TagList.takes_read o) handler h c t
        rw [hpos] at hatom
        rw [exec_bind_ok hhead]
        simp only [hr]
        rcases hx : (atom o child handler h).exec c t with ⟨⟨e | ⟨_ | _, handler'⟩, d⟩, u⟩
        · rw [hx] at hatom
          rw [exec_bind_error hx]
          refine hatom.last h fun hw => ?_
          exact not_whole_error (exec_bind_error hx _) (hw.behind hhead)
        · rw [hx] at hatom
          rw [exec_bind_ok hx]
          exact hatom.atom h (ih _ (h.leave_lt hb) handler' d u) fun hw =>
            (hw.behind hhead).split hx rfl
        · rw [hx] at hatom
          rw [exec_bind_ok hx]
          refine hatom.last h fun hw => ?_
          obtain ⟨⟨step, hstep, rfl⟩, -⟩ := (hw.behind hhead).behind hx
          cases hstep
      · have hhead : (read (Header.read budget)).exec c s = ((.error (.stream e), c), t) := by
          rw [read, exec_lift, exec_read, hr]
          rfl
        rw [exec_bind_error hhead]
        refine .broken (fun _ => Nat.le_trans hpos (Nat.add_le_add_left hb _)) ?_
        exact not_whole_error (exec_bind_error hhead _)
    · rw [dif_neg hb, dif_neg hb]
      exact (takes_lift (takes_skip budget)).map (fun _ => Step.proceed) (fun _ _ => trivial) c s

theorem takes_forest (o : Options) (levels budget : Nat) :
    (forest o levels budget).Takes (· = .proceed) budget (forestMet o levels budget) := by
  induction levels generalizing budget with
  | zero =>
    intro c s
    refine .broken (fun _ => Nat.le_add_right _ _) ?_
    exact not_whole_error (exec_throw ReadError.tooDeep c s)
  | succ levels ih => exact takes_siblings o ih none budget

/-- Neither a walk nor a tag list gets behind its budget if every atom it meets fits into its
parent. Where it goes on to its end and no descriptors are cut, it stays within its budget only
then. -/
theorem pos_le_iff_fits (o : Options) (budget : Nat) (c : Collected) (s : Slice) :
    ((∀ a ∈ met o budget c s, a.Fits) → ((walk o budget).exec c s).2.pos ≤ s.pos + budget) ∧
    (((walk o budget).exec c s).1.1 = .ok .proceed → ¬(walk o budget).Cut c s →
      (((walk o budget).exec c s).2.pos ≤ s.pos + budget ↔ ∀ a ∈ met o budget c s, a.Fits)) ∧
    ((∀ a ∈ TagList.met o budget c s, a.Fits) →
      ((TagList.read o budget : Collect StreamError false Unit).exec c s).2.pos ≤
        s.pos + budget) ∧
    (((TagList.read o budget : Collect StreamError false Unit).exec c s).1.1 = .ok () →
      (((TagList.read o budget : Collect StreamError false Unit).exec c s).2.pos ≤ s.pos + budget ↔
        ∀ a ∈ TagList.met o budget c s, a.Fits)) := by
  have hwalk := takes_forest o maxDepth budget c s
  have htags := TagList.takes_read o budget c s
  refine ⟨hwalk.inside, ?_, htags.inside, ?_⟩
  · intro hok hcut
    have hwhole : (walk o budget).Whole (· = .proceed) c s := ⟨⟨.proceed, hok, rfl⟩, hcut⟩
    exact ⟨hwalk.fits hwhole, hwalk.inside⟩
  · intro hok
    have hwhole : (TagList.read o budget : Collect StreamError false Unit).Whole
        (fun _ => True) c s :=
      ⟨⟨(), hok, trivial⟩, (TagList.quiet_read o budget c).not_cut s⟩
    exact ⟨htags.fits hwhole, htags.inside⟩

def freeSpace (size : UInt8) : Slice :=
  .ofBytes ([0, 0, 0, size] ++ (Code.ofChars 'f' 'r' 'e' 'e').toBytes ++ List.replicate 32 0)

theorem pos_le_iff_fits_free :
    let o : Options := { arenaSize := 0 }
    let c := Collected.start o
    (((walk o 16).exec c (freeSpace 16)).2.pos ≤ 16 ∧
      ∀ a ∈ met o 16 c (freeSpace 16), a.Fits) ∧
    ((TagList.read o 16 : Collect StreamError false Unit).exec c (freeSpace 16)).2.pos ≤ 16 ∧
      ∀ a ∈ TagList.met o 16 c (freeSpace 16), a.Fits := by
  intro o c
  have h := pos_le_iff_fits o 16 c (freeSpace 16)
  have hmet : met o 16 c (freeSpace 16) =
      [⟨16, .other (Code.ofChars 'f' 'r' 'e' 'e'), false, 8⟩] := by cbv
  have htags : TagList.met o 16 c (freeSpace 16) =
      [⟨16, .other (Code.ofChars 'f' 'r' 'e' 'e'), false, 8⟩] := by cbv
  have hfits : ∀ a ∈ met o 16 c (freeSpace 16), a.Fits := by
    rw [hmet]
    decide
  have hfits' : ∀ a ∈ TagList.met o 16 c (freeSpace 16), a.Fits := by
    rw [htags]
    decide
  have hquiet : ((walk o 16).runFrom c).notices (freeSpace 16) = [] := by cbv
  have hcut : ¬(walk o 16).Cut c (freeSpace 16) := by
    rw [Collect.Cut, Scan.Cut, hquiet]
    exact List.not_mem_nil
  have hle := h.1 hfits
  have hle' := h.2.2.1 hfits'
  exact ⟨⟨hle, (h.2.1 (by cbv) hcut).mp hle⟩, hle', (h.2.2.2 (by cbv)).mp hle'⟩

/-- An atom of 40 octets in a parent of 16 takes 40. -/
theorem free_overruns :
    let o : Options := { arenaSize := 0 }
    ¬((walk o 16).exec (.start o) (freeSpace 40)).2.pos ≤ 16 ∧
      ¬((TagList.read o 16 : Collect StreamError false Unit).exec (.start o)
        (freeSpace 40)).2.pos ≤ 16 := by
  have hwalk : ((walk { arenaSize := 0 } 16).exec (.start { arenaSize := 0 })
      (freeSpace 40)).2.pos = 40 := by cbv
  have htags : ((TagList.read { arenaSize := 0 } 16 : Collect StreamError false Unit).exec
      (.start { arenaSize := 0 }) (freeSpace 40)).2.pos = 40 := by cbv
  intro o
  rw [hwalk, htags]
  decide

end Walk

end AudioAtoms
