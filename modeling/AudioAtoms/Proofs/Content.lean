import AudioAtoms.Proofs.Headers
import AudioAtoms.Proofs.Stopping

/-!
# What the payload of a leaf says

Every kind of leaf has a function from the octets of its payload to its content, which is nothing
where the octets are too few or of another form. A reader run on a payload that is all there finds
just that: it stops with an error only if it was refused, and then the leaf counts as absent.
-/
namespace AudioAtoms

namespace Content

abbrev numberAt (bs : Bytes) (start width : Nat) : Nat := Bytes.toNat ((bs.drop start).take width)

abbrev codeAt (bs : Bytes) (start : Nat) : Code := .ofBytes ((bs.drop start).take 4)

def handler? (bs : Bytes) : Option Handler :=
  if 12 ≤ bs.length then some (.ofCode (codeAt bs 8)) else none

def brand? (bs : Bytes) : Option Code :=
  if 4 ≤ bs.length then some (codeAt bs 0) else none

def firstChapter? (bs : Bytes) : Option Nat :=
  if 17 ≤ bs.length ∧ numberAt bs 8 1 ≠ 0 then some (numberAt bs 9 8) else none

/-- As many runs as declared, or as there are octets for. -/
def runs : Nat → Bytes → List SampleRun
  | 0, _ => []
  | n + 1, bs =>
    if bs.length < 8 then [] else ⟨numberAt bs 0 4, numberAt bs 4 4⟩ :: runs n (bs.drop 8)

def sampleTable? (bs : Bytes) : Option (List SampleRun) :=
  if 8 ≤ bs.length then some (runs (numberAt bs 4 4) (bs.drop 8)) else none

/-- The size of the payload of the atom inside a sample entry with the given code. An atom with a
64-bit size is none of that code. -/
def innerSize? (code : Code) (bs : Bytes) : Option Nat :=
  let declared := numberAt bs 28 4
  if 36 ≤ bs.length ∧ codeAt bs 32 = code ∧ declared ≠ 1 then
    some (if declared = 0 then bs.length - 36 else declared - 8)
  else none

def alacRate? (bs : Bytes) : Option Nat :=
  match innerSize? Kind.alacEntry.code bs with
  | some size => if 28 ≤ size ∧ 64 ≤ bs.length then some (numberAt bs 60 4) else none
  | none => none

end Content

theorem Payload.refused_answer {q : Request true} {s : Payload} {e : StreamError}
    (h : q.failure? (ByteStream.answer q s).1 = some e) :
    (ByteStream.answer q s).2.refused = true := by
  cases q with
  | exactly n | skip n =>
    simp only [ByteStream.answer, Payload.answer] at h ⊢
    split at h
    · cases h
    · rw [if_neg ‹_›]
      rfl
  | upTo n | position | remaining _ => cases h

namespace Read
variable {α β : Type}

/-- On a payload the reader fails only by being refused. -/
theorem Watchful.refused {p : Read true α} (hp : p.Watchful) {s t : Payload} {e : StreamError}
    (h : p.exec s = (.error e, t)) : t.refused = true := by
  unfold Watchful at hp
  unfold exec at h
  generalize p.run = scan at hp h
  induction hp generalizing s with
  | done r hr =>
    obtain ⟨a, rfl⟩ := hr
    cases h
  | note m rest _ _ ih => exact ih h
  | ask q next hfail _ ih =>
    rw [Scan.run_ask] at h
    rcases hf : q.failure? (ByteStream.answer q s).1 with _ | e'
    · exact ih _ hf h
    · rcases hfail _ _ hf with hend | ⟨a, hend⟩
      · rw [hend, Scan.run_done] at h
        cases h
        exact Payload.refused_answer hf
      · rw [hend] at h
        cases h

def result (p : Read true α) (s : Payload) : Option α := (p.exec s).1.toOption

@[simp] theorem result_pure (a : α) (s : Payload) : (pure a : Read true α).result s = some a := rfl

theorem result_ite {q : Prop} [Decidable q] {p r : Read true α} {s : Payload} :
    (if q then p else r).result s = if q then p.result s else r.result s := by
  split <;> rfl

theorem result_bind_ok {p : Read true α} {s t : Payload} {a : α} (h : p.exec s = (.ok a, t))
    (f : α → Read true β) : (p >>= f).result s = (f a).result t := by
  rw [result, exec_bind_ok h, result]

theorem result_bind_error {p : Read true α} {s t : Payload} {e : StreamError}
    (h : p.exec s = (.error e, t)) (f : α → Read true β) : (p >>= f).result s = none := by
  rw [result, exec_bind_error h]
  rfl

@[simp] theorem result_skip_bind (n : Nat) (f : Unit → Read true β) (s : Payload) :
    (skip n >>= f).result s = if n ≤ s.rest.length then (f ()).result (s.advance n) else none := by
  rw [result, Payload.exec_skip_bind]
  split <;> rfl

@[simp] theorem result_number_bind (n : Nat) (f : Nat → Read true β) (s : Payload) :
    (number n >>= f).result s =
      if n ≤ s.rest.length then (f (Bytes.toNat (s.rest.take n))).result (s.advance n)
      else none := by
  rw [result, Payload.exec_number_bind]
  split <;> rfl

@[simp] theorem result_code_bind (f : Code → Read true β) (s : Payload) :
    (code >>= f).result s =
      if 4 ≤ s.rest.length then (f (.ofBytes (s.rest.take 4))).result (s.advance 4)
      else none := by
  rw [result, Payload.exec_code_bind]
  split <;> rfl

@[simp] theorem result_remaining_bind (f : Nat → Read true β) (s : Payload) :
    (remaining >>= f).result s = (f s.rest.length).result s := by
  rw [result, Payload.exec_remaining_bind, result]

@[simp] theorem result_note_bind (m : Notice) (f : Unit → Read true β) (s : Payload) :
    (note m >>= f).result s = (f ()).result s := by
  rw [result, Payload.exec_note_bind, result]

end Read

/-- A leaf whose payload is all there is read and passed, whatever its payload says. -/
theorem Leaf.exec_read_result {α : Type} {p : Read true α} (hp : p.Watchful) (h : Header)
    (pos : Nat) (bs tail : Bytes) (hb : h.dataSize = bs.length) :
    (Leaf.read h p : Read false (Option α)).exec (Slice.mk pos (bs ++ tail)) =
      (.ok (p.result (.ofBytes pos bs)), ⟨pos + bs.length, tail⟩) := by
  rw [Leaf.exec_read h pos bs tail p hb, Read.result]
  rcases hr : p.exec (Payload.ofBytes pos bs) with ⟨r, s⟩
  cases r with
  | ok a => rfl
  | error e =>
    have hs : s.refused = true := hp.refused hr
    simp only [hs, if_true]
    rfl

theorem Leaf.result_handler (pos : Nat) (bs : Bytes) :
    Leaf.handler.result (.ofBytes pos bs) = Content.handler? bs := by
  simp only [Leaf.handler, Read.result_skip_bind, Read.result_code_bind, Read.result_note_bind,
    Read.result_pure, Payload.advance, Payload.ofBytes, List.length_drop, Content.handler?,
    Content.codeAt]
  by_cases h : 12 ≤ bs.length
  · rw [if_pos (by omega), if_pos (by omega), if_pos h]
  · by_cases h8 : 8 ≤ bs.length
    · rw [if_pos h8, if_neg (by omega), if_neg h]
    · rw [if_neg h8, if_neg h]

theorem Leaf.result_brand (pos : Nat) (bs : Bytes) :
    Leaf.brand.result (.ofBytes pos bs) = Content.brand? bs := by
  simp only [Leaf.brand, Read.result_code_bind, Read.result_note_bind, Read.result_pure,
    Payload.ofBytes, Content.brand?, Content.codeAt, List.drop_zero]

/-- A chapter list that ends too early and one without a chapter say the same: nothing. -/
theorem Leaf.result_firstChapter (pos : Nat) (bs : Bytes) :
    (Leaf.firstChapter.result (.ofBytes pos bs)).join = Content.firstChapter? bs := by
  simp only [Leaf.firstChapter, Read.result_skip_bind, Read.result_number_bind, Read.result_ite,
    Read.result_pure, Payload.advance, Payload.ofBytes, List.length_drop, List.drop_drop,
    Content.firstChapter?, Content.numberAt]
  by_cases h9 : 9 ≤ bs.length
  · rw [if_pos (by omega), if_pos (by omega)]
    by_cases hc : Bytes.toNat ((bs.drop 8).take 1) = 0
    · rw [if_pos hc, if_neg (by simp [hc])]
      rfl
    · rw [if_neg hc]
      by_cases h17 : 17 ≤ bs.length
      · rw [if_pos (by omega), if_pos ⟨h17, hc⟩]
        rfl
      · rw [if_neg (by omega), if_neg (by simp [h17])]
        rfl
  · have hnot : ¬ (17 ≤ bs.length ∧ Bytes.toNat ((bs.drop 8).take 1) ≠ 0) :=
      fun h => absurd h.1 (by omega)
    by_cases h8 : 8 ≤ bs.length
    · rw [if_neg hnot, if_pos h8, if_neg (by omega)]
      rfl
    · rw [if_neg hnot, if_neg h8]
      rfl

namespace SampleRun

/-- Cutting after every run comes to the same as cutting once at the end. -/
theorem total_eq_min_sum (upsampled : Bool) (runs : List SampleRun) :
    total upsampled runs = min (runs.map (samples upsampled)).sum (2 ^ 64 - 1) := by
  have hfold (n : Nat) (hn : n ≤ 2 ^ 64 - 1) :
      runs.foldl (fun n r => min (n + r.samples upsampled) (2 ^ 64 - 1)) n =
        min (n + (runs.map (samples upsampled)).sum) (2 ^ 64 - 1) := by
    induction runs generalizing n with
    | nil =>
      rw [List.foldl_nil, List.map_nil, List.sum_nil]
      omega
    | cons r runs ih =>
      rw [List.foldl_cons, ih _ (Nat.min_le_right _ _), List.map_cons, List.sum_cons]
      omega
  rw [total, hfold 0 (Nat.zero_le _), Nat.zero_add]

/-- Runs that the payload has room for are all read. -/
theorem result_readMany (n : Nat) (runs : List SampleRun) (s : Payload)
    (h : 8 * n ≤ s.rest.length) :
    (readMany n runs).result s = some (runs.reverse ++ Content.runs n s.rest) := by
  induction n generalizing runs s with
  | zero => simp [readMany, Content.runs]
  | succ n ih =>
    have hnot : ¬ s.rest.length < 8 := by omega
    rw [readMany, Read.result_number_bind, if_pos (by omega), Read.result_number_bind,
      if_pos (by simp only [Payload.advance, List.length_drop]; omega),
      ih _ _ (by simp only [Payload.advance, List.length_drop]; omega)]
    simp only [Content.runs, if_neg hnot, Payload.advance, List.drop_drop, List.reverse_cons,
      List.append_assoc, List.singleton_append, Content.numberAt, List.drop_zero]

/-- A number of runs that the octets cannot hold makes no difference. -/
theorem runs_min (n : Nat) (bs : Bytes) : Content.runs (min n (bs.length / 8)) bs = Content.runs n bs := by
  induction n generalizing bs with
  | zero => simp
  | succ n ih =>
    by_cases h : bs.length < 8
    · have hz : bs.length / 8 = 0 := by omega
      simp only [hz, Nat.min_zero, Content.runs, if_pos h]
    · have hd : bs.length / 8 = (bs.drop 8).length / 8 + 1 := by
        rw [List.length_drop]
        omega
      rw [hd, Nat.succ_min_succ, Content.runs, Content.runs, if_neg h, if_neg h, ih]

theorem result_readTable (pos : Nat) (bs : Bytes) :
    (readTable bs.length).result (.ofBytes pos bs) = Content.sampleTable? bs := by
  rw [readTable, Read.result_skip_bind, Content.sampleTable?]
  by_cases h8 : 8 ≤ bs.length
  · have hdeclared : Content.numberAt bs 4 4 < 2 ^ 32 :=
      Bytes.toNat_lt_of_le (n := 4) (List.length_take_le 4 _)
    have hcap : min (Content.numberAt bs 4 4) (capacity bs.length) =
        min (Content.numberAt bs 4 4) ((bs.drop 8).length / 8) := by
      simp only [capacity, List.length_drop]
      omega
    have hmany : (readMany (min (Content.numberAt bs 4 4) (capacity bs.length)) []).result
        (Payload.mk (pos + 4 + 4) (bs.drop 8) false) =
          some (Content.runs (Content.numberAt bs 4 4) (bs.drop 8)) := by
      rw [hcap, result_readMany _ _ _ (by dsimp only; omega), runs_min]
      rfl
    simp only [Payload.ofBytes, Payload.advance, Read.result_number_bind, List.length_drop,
      List.drop_drop]
    rw [if_pos (by omega), if_pos (by omega), if_pos h8, ← hmany]
    split
    · rw [Read.result_note_bind]
    · rfl
  · rw [if_neg h8]
    by_cases h4 : 4 ≤ (Payload.ofBytes pos bs).rest.length
    · rw [if_pos h4, Read.result_number_bind, if_neg]
      simp only [Payload.ofBytes, Payload.advance, List.length_drop]
      omega
    · rw [if_neg h4]

end SampleRun

theorem Kind.ofCode_code : ∀ kind ∈ named, ofCode kind.code = kind := by
  decide

theorem Kind.ofCode_eq_iff {kind : Kind} (hk : kind ∈ named) (code : Code) :
    ofCode code = kind ↔ code = kind.code := by
  constructor
  · rintro rfl
    exact (code_ofCode code).symm
  · rintro rfl
    exact ofCode_code kind hk

namespace SampleEntry

theorem exec_read_header (budget : Nat) (s : Payload)
    (h : (Header.ofOctets budget s.rest).ownSize ≤ s.rest.length) :
    (Header.read budget : Read true Header).exec s = (.ok (Header.ofOctets budget s.rest),
      s.advance (Header.ofOctets budget s.rest).ownSize) := by
  have hgood : (Payload.feed s.refused).Good s := rfl
  obtain ⟨t, hread, ht⟩ := Header.exec_read budget hgood h
  rw [hread, ht.eq_advance_payload]
  rfl

/-- A header with a size of 32 bits. -/
theorem exec_read_narrow (budget : Nat) (s : Payload) (h8 : 8 ≤ s.rest.length)
    (hw : Content.numberAt s.rest 0 4 ≠ 1) :
    (Header.read budget : Read true Header).exec s =
      (.ok ⟨.ofCode (Content.codeAt s.rest 4), false,
        if Content.numberAt s.rest 0 4 = 0 then budget - 8
        else Content.numberAt s.rest 0 4 - 8⟩, s.advance 8) := by
  simp only [Content.numberAt, List.drop_zero] at hw ⊢
  have hown : (Header.ofOctets budget s.rest).ownSize = 8 :=
    Header.ownSize_ofOctets.trans (if_neg hw)
  rw [exec_read_header budget s (hown.symm ▸ h8), hown, Header.ofOctets_narrow hw]

/-- A header with a size of 64 bits has no code, if it is there at all. -/
theorem exec_read_wide (budget : Nat) (s : Payload) (hw : Content.numberAt s.rest 0 4 = 1) :
    (∃ e t, (Header.read budget : Read true Header).exec s = (.error e, t)) ∨
      ∃ size t, (Header.read budget : Read true Header).exec s =
        (.ok ⟨.other ⟨0, 0, 0, 0⟩, true, size⟩, t) := by
  simp only [Content.numberAt, List.drop_zero] at hw
  by_cases hfits : (Header.ofOctets budget s.rest).ownSize ≤ s.rest.length
  · rw [exec_read_header budget s hfits, Header.ofOctets_wide hw]
    exact .inr ⟨_, _, rfl⟩
  · have hgood : (Payload.feed s.refused).Good s := rfl
    exact .inl (Header.exec_read_tooFew budget hgood (Nat.lt_of_not_le hfits))

/-- What follows the configuration atom of an entry is about one kind of atom. -/
theorem result_inner_bind {α : Type} (kind : Kind) (hk : kind ∈ Kind.named)
    (f : Option Header → Read true (Option α))
    (hf : ∀ found, (∀ wide size, found ≠ some ⟨kind, wide, size⟩) → f found = pure none)
    (pos : Nat) (bs : Bytes) :
    ((inner? bs.length >>= f).result (.ofBytes pos bs)).join =
      (Content.innerSize? kind.code bs).bind fun size =>
        ((f (some ⟨kind, false, size⟩)).result ((Payload.ofBytes pos bs).advance 36)).join := by
  by_cases h36 : 36 ≤ bs.length
  · have hroom : ¬ bs.length - fixedSize < Header.minSize := by
      simp only [fixedSize, Header.minSize]
      omega
    have hskip : fixedSize ≤ (Payload.ofBytes pos bs).rest.length := by
      simp only [fixedSize, Payload.ofBytes]
      omega
    have hrest : ((Payload.ofBytes pos bs).advance fixedSize).rest = bs.drop 28 := rfl
    have h8 : 8 ≤ ((Payload.ofBytes pos bs).advance fixedSize).rest.length := by
      rw [hrest, List.length_drop]
      omega
    have hinner : (inner? bs.length >>= f).result (.ofBytes pos bs) =
        (Header.read (bs.length - fixedSize) >>= fun h => f (some h)).result
          ((Payload.ofBytes pos bs).advance fixedSize) := by
      rw [inner?, if_neg hroom, Read.result, bind_assoc, Payload.exec_skip_bind, if_pos hskip,
        bind_assoc]
      rfl
    rw [hinner]
    by_cases hw : Content.numberAt bs 28 4 = 1
    · have hnone : Content.innerSize? kind.code bs = none := if_neg fun h => h.2.2 hw
      rw [hnone]
      obtain ⟨e, t, he⟩ | ⟨size, t, he⟩ := exec_read_wide (bs.length - fixedSize)
          ((Payload.ofBytes pos bs).advance fixedSize) (by rw [hrest]; exact hw)
      · rw [Read.result_bind_error he]
        rfl
      · have hne : kind ≠ .other ⟨0, 0, 0, 0⟩ := by
          rintro rfl
          revert hk
          decide
        rw [Read.result_bind_ok he, hf _ fun wide n h => hne (by cases h; rfl)]
        rfl
    · have he := exec_read_narrow (bs.length - fixedSize) _ h8 hw
      have hadv : ((Payload.ofBytes pos bs).advance fixedSize).advance 8 =
          (Payload.ofBytes pos bs).advance 36 := by
        simp [Payload.advance, fixedSize, List.drop_drop, Nat.add_assoc]
      have hcode : Content.codeAt ((Payload.ofBytes pos bs).advance fixedSize).rest 4 =
          Content.codeAt bs 32 := by
        rw [hrest, Content.codeAt, List.drop_drop]
      rw [Read.result_bind_ok he, hadv, hcode]
      by_cases hc : Content.codeAt bs 32 = kind.code
      · have hsome : Content.innerSize? kind.code bs =
            some (if Content.numberAt bs 28 4 = 0 then bs.length - 36
              else Content.numberAt bs 28 4 - 8) := if_pos ⟨h36, hc, hw⟩
        rw [hsome, (Kind.ofCode_eq_iff hk _).mpr hc]
        rfl
      · have hnone : Content.innerSize? kind.code bs = none := if_neg fun h => hc h.2.1
        have hne : Kind.ofCode (Content.codeAt bs 32) ≠ kind :=
          fun h => hc ((Kind.ofCode_eq_iff hk _).mp h)
        rw [hnone, hf _ fun wide n h => hne (by cases h; rfl)]
        rfl
  · have hroom : bs.length - fixedSize < Header.minSize := by
      simp only [fixedSize, Header.minSize]
      omega
    have hnone : Content.innerSize? kind.code bs = none := if_neg fun h => h36 h.1
    rw [inner?, if_pos hroom, hnone, Read.result_bind_ok (Read.exec_pure _ _), hf none (by simp)]
    rfl

theorem result_alac (pos : Nat) (bs : Bytes) :
    ((alac bs.length).result (.ofBytes pos bs)).join = Content.alacRate? bs := by
  rw [alac, result_inner_bind .alacEntry (by decide), Content.alacRate?]
  · cases Content.innerSize? Kind.alacEntry.code bs with
    | none => rfl
    | some size =>
      simp only [Option.bind_some, Read.result_ite, Read.result_pure, Read.result_skip_bind,
        Read.result_number_bind, Payload.advance, Payload.ofBytes, List.length_drop,
        List.drop_drop]
      by_cases hsize : size < 28
      · rw [if_pos hsize, if_neg (by omega)]
        rfl
      · rw [if_neg hsize]
        by_cases h64 : 64 ≤ bs.length
        · rw [if_pos (by omega), if_pos (by omega), if_pos (by omega)]
          rfl
        · have hnot : ¬ (28 ≤ size ∧ 64 ≤ bs.length) := fun h => h64 h.2
          by_cases h24 : 24 ≤ bs.length - 36
          · rw [if_neg hnot, if_pos h24, if_neg (by omega)]
            rfl
          · rw [if_neg hnot, if_neg h24]
            rfl
  · intro found h
    split
    · exact absurd rfl (h _ _)
    · rfl

end SampleEntry

end AudioAtoms
