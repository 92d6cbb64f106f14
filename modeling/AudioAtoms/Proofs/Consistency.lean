import AudioAtoms.Proofs.Acceptance
import AudioAtoms.Proofs.ArenaLayout
import AudioAtoms.Proofs.FirstValue
import AudioAtoms.Proofs.Traversal

/-!
# Records that agree with themselves

Some fields of a record say the same thing in two ways, and different tags and atoms write them at
different times. Whatever was walked over, and whatever came of it, the year is that of the date,
the text of a numbering writes its number, and a sample rate comes with a codec. What is worked out
at the end has not been touched. So no file is refused for its codec alone.
-/
namespace AudioAtoms

/-- The text of a numbering writes its number and that of all there are, both words of 16 bits. -/
def Numbering.Written (numbering : Numbering) : Prop :=
  ∀ text, numbering.text = some text → ∃ m n, numbering.number = some m ∧ m ≤ 65535 ∧
    1 ≤ n ∧ n ≤ 65535 ∧ text = s!"{m}/{n}"

theorem Numbering.Written.text_eq_none {numbering : Numbering} (h : numbering.Written)
    (hnone : numbering.number = none) : numbering.text = none := by
  cases htext : numbering.text with
  | none => rfl
  | some text =>
    obtain ⟨m, _, hm, _⟩ := h text htext
    cases hnone.symm.trans hm

theorem Collected.keep_alloc (c : Collected) (text : String) :
    c.keep (c.arena.alloc text) = (none, c) ∨
      ∃ a, c.arena.alloc text = .ok (text, a) ∧
        c.keep (c.arena.alloc text) = (some text, { c with arena := a }) := by
  rcases halloc : c.arena.alloc text with refusal | ⟨kept, a⟩
  · exact .inl rfl
  · obtain rfl := (Arena.alloc_eq_ok halloc).1
    exact .inr ⟨a, rfl, rfl⟩

namespace TagContent

/-- All that a numbering can do: nothing, or set a number, with its text if the arena takes it. -/
theorem numbering_cases {field : NumberField} (bs : Bytes) {c : Collected}
    (hc : (c.track.tags.numbering field).Written) :
    numbering field bs c = c ∨ (c.track.tags.numbering field).number = none ∧ ∃ m, m ≤ 65535 ∧
      (numbering field bs c = c.mapTags (·.setNumbering ⟨some m, none⟩ field) ∨
        ∃ n a, 1 ≤ n ∧ n ≤ 65535 ∧ c.arena.alloc s!"{m}/{n}" = .ok (s!"{m}/{n}", a) ∧
          numbering field bs c =
            { c.mapTags (·.setNumbering ⟨some m, some s!"{m}/{n}"⟩ field) with arena := a }) := by
  have hset (t : Tags) (x y : Numbering) :
      (t.setNumbering x field).setNumbering y field = t.setNumbering y field := by
    cases field <;> rfl
  rw [numbering]
  split
  · rename_i h
    have hnone := Option.isNone_iff_eq_none.mp h.2
    have htext := hc.text_eq_none hnone
    have hm := @Bytes.toNat_le_word (((value 6 bs).drop 2).take 2) (by simp [h.1])
    have hn := @Bytes.toNat_le_word ((value 6 bs).drop 4) (by simp [h.1])
    generalize Bytes.toNat (((value 6 bs).drop 2).take 2) = m at hm ⊢
    generalize Bytes.toNat ((value 6 bs).drop 4) = n at hn ⊢
    refine .inr ⟨hnone, m, hm, ?_⟩
    split
    · rename_i hpos
      dsimp only
      obtain hkeep | ⟨a, halloc, hkeep⟩ := Collected.keep_alloc
        (c.mapTags fun t => t.setNumbering { t.numbering field with number := some m } field)
        s!"{m}/{n}"
      · rw [hkeep]
        left
        simp only [Collected.mapTags, hset, Tags.numbering_setNumbering, if_true]
      · rw [hkeep]
        refine .inr ⟨n, a, hpos, hn, halloc, ?_⟩
        simp only [Collected.mapTags, hset, Tags.numbering_setNumbering, if_true]
    · left
      simp only [Collected.mapTags, htext]
  · exact .inl rfl

end TagContent

/-- Nothing has been worked out from the samples yet. -/
structure Audio.Underived (a : Audio) : Prop where
  length : a.length = 0
  bitrate : a.bitrate = 0
  variableRate : a.variableRate = false

/-- The fields of a record that was not completed agree with each other. -/
structure Track.Consistent (t : Track) : Prop where
  year : t.tags.year = t.tags.date.bind Date.year?
  numbering : ∀ field, (t.tags.numbering field).Written
  named : t.audio.sampleRate ≠ 0 → t.audio.codec ≠ .unknown
  underived : t.audio.Underived

namespace Collected
variable {o : Options} {kind : Kind} {c d : Collected}

theorem consistent_start (o : Options) : (start o).track.Consistent where
  year := rfl
  numbering field text h := by cases field <;> cases h
  named h := absurd rfl h
  underived := ⟨rfl, rfl, rfl⟩

theorem TagStep.written (h : TagStep o kind c d)
    (hc : ∀ field, (c.track.tags.numbering field).Written) (field : NumberField) :
    (d.track.tags.numbering field).Written := by
  obtain ⟨field', bs, rfl⟩ | hsame := h.numbering_cases
  · have hset (x : Numbering) (hx : x.Written) :
        ((c.track.tags.setNumbering x field').numbering field).Written := by
      rw [Tags.numbering_setNumbering]
      split
      · exact hx
      · exact hc field
    obtain h | ⟨-, m, hm, h | ⟨n, a, hpos, hn, -, h⟩⟩ :=
      TagContent.numbering_cases bs (hc field')
    · rw [h]
      exact hc field
    · rw [h]
      exact hset ⟨some m, none⟩ nofun
    · rw [h]
      refine hset ⟨some m, _⟩ fun text htext => ?_
      exact ⟨m, n, rfl, hm, hpos, hn, (Option.some.inj htext).symm⟩
  · rw [hsame]
    exact hc field

theorem Step.underived (h : c.Step o d) (hc : c.track.audio.Underived) :
    d.track.audio.Underived := by
  cases h with
  | tag h =>
    have huntrimmed (a : Audio) : a.Underived ↔ a.untrimmed.Underived :=
      ⟨fun h => ⟨h.1, h.2, h.3⟩, fun h => ⟨h.1, h.2, h.3⟩⟩
    rw [huntrimmed, h.untrimmed, ← huntrimmed]
    exact hc
  | brand brand => exact hc
  | runs | stream | lossless | chapter | audio => exact ⟨hc.length, hc.bitrate, hc.variableRate⟩

theorem Step.consistent (h : c.Step o d) (hc : c.track.Consistent) : d.track.Consistent := by
  have hnamed := h.named hc.named
  have hunderived := h.underived hc.underived
  cases h with
  | tag h => exact ⟨h.yearKnown hc.year, h.written hc.numbering, hnamed, hunderived⟩
  | _ => exact ⟨hc.year, hc.numbering, hnamed, hunderived⟩

theorem consistent_of_steps (h : Relation.ReflTransGen (Step o) c d) (hc : c.track.Consistent) :
    d.track.Consistent := by
  induction h with
  | refl => exact hc
  | tail _ hstep ih => exact hstep.consistent ih

end Collected

structure Collect.Never {ε α : Type} {bounded : Bool} (e : ε) (p : Collect ε bounded α) : Prop where
  exec : ∀ {σ : Type} [ByteStream bounded σ] (c : Collected) (s : σ), (p.exec c s).1.1 ≠ .error e

theorem Collect.Never.bind {ε α β : Type} {bounded : Bool} {e : ε} {p : Collect ε bounded α}
    {f : α → Collect ε bounded β} (hp : p.Never e) (hf : ∀ a, (f a).Never e) :
    (p >>= f).Never e := by
  refine ⟨fun c s => ?_⟩
  have hfirst := hp.exec c s
  rcases hr : p.exec c s with ⟨⟨e' | a, d⟩, t⟩
  · rw [hr] at hfirst
    rw [exec_bind_error hr]
    exact fun h => hfirst (congrArg Except.error (Except.error.inj h))
  · rw [exec_bind_ok hr]
    exact (hf a).exec d t

namespace Walk

theorem never_lift {α : Type} (p : Collect StreamError false α) :
    (lift p).Never .unknownCodec := by
  refine ⟨fun c s => ?_⟩
  rw [exec_lift]
  rcases p.exec c s with ⟨⟨e | a, d⟩, t⟩ <;> nofun

theorem composed_never : Composed fun p => p.Never .unknownCodec where
  pure _ := ⟨fun _ _ => nofun⟩
  bind := Collect.Never.bind
  get := ⟨fun _ _ => nofun⟩
  track _ _ := ⟨fun _ _ => nofun⟩
  note _ _ := ⟨fun _ _ => nofun⟩
  tooDeep := ⟨fun _ _ => nofun⟩
  skip _ := never_lift _
  header _ := never_lift _
  leaf _ _ _ := never_lift _
  tags _ _ := never_lift _

end Walk

/-- A record that is consistent is not refused for its codec. -/
theorem Track.Consistent.completed_ne {t : Track} (h : t.Consistent) :
    t.completed ≠ .error .unknownCodec := by
  rw [Ne, Track.completed_eq_error_iff, Audio.completed]
  split
  · simp
  · rename_i haudio
    rw [if_neg (h.named fun hrate => haudio (.inr (.inl hrate)))]
    split <;> simp

namespace Walk

theorem Reachable.consistent {o : Options} {c : Collected} (hc : Reachable o c) :
    c.track.Consistent := by
  induction hc with
  | start => exact Collected.consistent_start o
  | walk _ budget s ih =>
    exact Collected.consistent_of_steps ((makes_forest o maxDepth budget).exec _ s) ih

theorem read_ne_unknownCodec {σ : Type} [ByteStream false σ] (o : Options) (size : Nat) (s : σ) :
    Track.read o size s ≠ .error .unknownCodec := by
  have hconsistent := (Reachable.walk .start size s : Reachable o _).consistent
  have herror := (composed_never.ofForest o maxDepth size).exec (.start o) s
  rw [← walk] at herror
  rw [Track.read_eq]
  rcases hw : ((walk o size).exec (.start o) s).1 with ⟨e | step, d⟩
  · rw [hw] at herror
    exact fun h => herror (congrArg Except.error (Except.error.inj h))
  · rw [hw] at hconsistent
    exact hconsistent.completed_ne

/-- The record agrees with itself after any number of walks, whatever came of them, and so no file
is refused for its codec. -/
theorem consistent_walks {o : Options} {c : Collected} (hc : Reachable o c) :
    c.track.Consistent ∧ ∀ {σ : Type} [ByteStream false σ] (size : Nat) (s : σ),
      Track.read o size s ≠ .error .unknownCodec :=
  ⟨hc.consistent, read_ne_unknownCodec o⟩

set_option maxRecDepth 2048 in
/-- The arena has room for a date, not for the text of the track number behind it, and then for that
of a disc number, in a walk that fails. -/
theorem consistent_walks_numbered :
    let o : Options := { arenaSize := 10 }
    let number (kind : Kind) (m n : UInt8) : Bytes :=
      Atom.octets kind.code (List.replicate 16 0 ++ [0, 0, 0, m, 0, n])
    let file (tags : Bytes) : Bytes := Atom.octets Kind.metadata.code ([0, 0, 0, 0] ++
      Atom.octets Kind.handler.code
        (List.replicate 8 0 ++ (Code.ofChars 'm' 'd' 'i' 'r').toBytes) ++
      Atom.octets Kind.tagList.code tags)
    let date := Atom.octets Kind.date.code (List.replicate 16 0 ++ "1984-".toUTF8.toList)
    let first := file (date ++ number .trackNumber 12 200)
    let second := file (number .discNumber 1 2)
    let c := ((walk o first.length).exec (.start o) (Slice.ofBytes first)).1.2
    let d := (walk o (second.length + 8)).exec c (Slice.ofBytes second)
    d.1.1 = .error (.stream .underrun) ∧ d.1.2.track.tags.year = some 1984 ∧
      d.1.2.track.tags.track = ⟨some 12, none⟩ ∧ d.1.2.track.tags.disc = ⟨some 1, some "1/2"⟩ ∧
      d.1.2.track.Consistent := by
  intro o number file date first second c d
  have hd : (d.1.1, d.1.2.track.tags.year, d.1.2.track.tags.track, d.1.2.track.tags.disc) =
      (.error (.stream .underrun), some 1984, ⟨some 12, none⟩, ⟨some 1, some "1/2"⟩) := by
    simp only [d, c]
    cbv
  simp only [Prod.mk.injEq] at hd
  exact ⟨hd.1, hd.2.1, hd.2.2.1, hd.2.2.2,
    (consistent_walks (.walk (.walk .start _ (Slice.ofBytes first)) _ (Slice.ofBytes second))).1⟩

end Walk

end AudioAtoms
