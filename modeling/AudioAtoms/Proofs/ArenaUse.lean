import AudioAtoms.Proofs.ArenaLayout
import AudioAtoms.Proofs.Consistency

/-!
# What the arena is used for

A tag takes room in the arena if and only if it sets a text of the record, and then it takes the
octets of the value with a zero octet behind them. Values that are only looked at, values for a
field that is set and values that do not fit take none. So what is used never shrinks nor exceeds
the arena, and it bounds the texts in the record, although a text may be three times as long as the
octets that it was read from.
-/
namespace AudioAtoms

namespace Arena
variable {a b : Arena}

/-- The room that a text takes: an octet at least for each three octets of it, and one more. -/
structure Charged (a : Arena) (text : String) (most : Nat) (b : Arena) (size : Nat) : Prop where
  takes : a.Takes size b
  pos : 1 ≤ size
  le : size ≤ most
  text_le : (Text.encode text).length + 3 ≤ 3 * size

theorem charged_commit {filled most : Nat} {text : String}
    (h : a.commit filled most = .ok (text, b)) : ∃ size, a.Charged text most b size := by
  obtain ⟨hmost, hroom, rfl, rfl⟩ := commit_eq_ok h
  have htext := Text.length_encode_decode_le (a.found filled most)
  have hle := a.length_found_le filled most
  exact ⟨_, takes_append hroom, by omega, by omega, by omega⟩

theorem charged_alloc {m n : Nat} (hm : m ≤ 65535) (hn : n ≤ 65535)
    (h : a.alloc s!"{m}/{n}" = .ok (s!"{m}/{n}", b)) :
    ∃ size, a.Charged s!"{m}/{n}" 12 b size := by
  obtain ⟨-, hroom, hb⟩ := alloc_eq_ok h
  have hlen := Text.length_encode_numbering_le hm hn
  rw [hb]
  exact ⟨_, takes_append hroom, by omega, by omega, by omega⟩

end Arena

inductive KeptField where
  | text (field : TextField)
  | numbering (field : NumberField)
deriving DecidableEq

/-- The fields whose texts come from the arena alone. The name of a genre may also come from a
table. -/
def KeptField.arenaOnly : List KeptField :=
  [.text .title, .text .artist, .text .albumArtist, .text .album, .text .composer, .text .comment,
    .text .grouping, .text .date, .numbering .track, .numbering .disc, .text .musicBrainzTrack]

def KeptField.Counts (field : KeptField) (kind : Kind) : Prop :=
  field ∈ arenaOnly ∨ field = .text .genre ∧ kind = .customGenre

theorem KeptField.mem_arenaOnly {field : KeptField} :
    field ∈ arenaOnly ↔ field ≠ .text .genre := by
  obtain field | field := field <;> cases field <;> decide

theorem KeptField.counts_iff {kind : Kind} {field : KeptField} :
    field.Counts kind ↔ (field = .text .genre → kind = .customGenre) := by
  rw [Counts, mem_arenaOnly]
  by_cases h : field = .text .genre <;> simp [h]

namespace Tags

def kept (t : Tags) : KeptField → Option String
  | .text field => t.text field
  | .numbering field => (t.numbering field).text

def keptTexts (t : Tags) : List String := KeptField.arenaOnly.filterMap t.kept

theorem kept_setText (t : Tags) (value : Option String) (field : TextField) (f : KeptField) :
    (t.setText value field).kept f = if f = .text field then value else t.kept f := by
  obtain f | f := f <;> cases field <;> cases f <;> rfl

theorem kept_setNumbering (t : Tags) (n : Numbering) (field : NumberField) (f : KeptField) :
    (t.setNumbering n field).kept f = if f = .numbering field then n.text else t.kept f := by
  obtain f | f := f <;> cases field <;> cases f <;> rfl

/-- The octets of a text, with three more for the zero octet behind its value. -/
def weight (text : String) : Nat := (Text.encode text).length + 3

theorem sum_weight (texts : List String) :
    (texts.map weight).sum =
      (texts.map fun text => (Text.encode text).length).sum + 3 * texts.length := by
  induction texts with
  | nil => rfl
  | cons text texts ih =>
    simp only [List.map_cons, List.sum_cons, List.length_cons, weight] at ih ⊢
    omega

/-- A field that is set adds the weight of its text at most once. -/
theorem sum_weight_le {before after : KeptField → Option String} {field : KeptField}
    {value : String} (hnone : before field = none)
    (hset : ∀ f, after f = if f = field then some value else before f) {fields : List KeptField}
    (hnodup : fields.Nodup) :
    ((fields.filterMap after).map weight).sum ≤
      ((fields.filterMap before).map weight).sum + weight value := by
  induction fields with
  | nil => exact Nat.zero_le _
  | cons f fields ih =>
    obtain ⟨hmem, hnodup⟩ := List.nodup_cons.mp hnodup
    have ih := ih hnodup
    by_cases hf : f = field
    · have hrest : fields.filterMap after = fields.filterMap before := by
        refine List.filterMap_congr fun g hg => (hset g).trans (if_neg ?_)
        rintro rfl
        exact hmem (hf ▸ hg)
      have hafter : after f = some value := (hset f).trans (if_pos hf)
      rw [List.filterMap_cons_some hafter, hrest, List.filterMap_cons_none (hf ▸ hnone),
        List.map_cons, List.sum_cons, Nat.add_comm]
    · have hsame : after f = before f := (hset f).trans (if_neg hf)
      cases hbefore : before f with
      | none =>
        rwa [List.filterMap_cons_none (hsame.trans hbefore), List.filterMap_cons_none hbefore]
      | some text =>
        rw [List.filterMap_cons_some (hsame.trans hbefore), List.filterMap_cons_some hbefore,
          List.map_cons, List.map_cons, List.sum_cons, List.sum_cons]
        omega

theorem setText_none {t : Tags} {field : TextField} (h : t.text field = none) :
    t.setText none field = t := by
  cases field <;> rw [← h] <;> rfl

end Tags

namespace TagContent

/-- All that a text can do: nothing but to use the spare part, or to set a field to a value that
the arena took. -/
theorem text_cases (o : Options) (field : TextField) (bs : Bytes) (c : Collected) :
    text o field bs c = load bs c ∨ c.track.tags.text field = none ∧ ∃ filled value a,
      (load bs c).arena.commit filled o.maxValueSize = .ok (value, a) ∧
        text o field bs c =
          { (load bs c).mapTags (·.setText (some value) field) with arena := a } := by
  rw [text]
  split
  · rename_i h
    have hnone : c.track.tags.text field = none := Option.isNone_iff_eq_none.mp h.2
    dsimp only
    rcases hkept : (load bs c).arena.commit (value c.arena.room bs).length o.maxValueSize
      with refusal | ⟨value, a⟩
    · left
      change (load bs c).mapTags (·.setText none field) = load bs c
      rw [Collected.mapTags, Tags.setText_none (Option.isNone_iff_eq_none.mp h.2)]
    · exact .inr ⟨hnone, _, value, a, hkept, rfl⟩
  · exact .inl rfl

/-- A text that is not set yet is set to what is kept of the value that was found. -/
theorem text_of_value {o : Options} {field : TextField} {bs : Bytes} {c : Collected}
    (hne : value c.arena.room bs ≠ []) (hmost : o.maxValueSize ≠ 0)
    (hunset : c.track.tags.text field = none) :
    let found := Arena.trimmed o.maxValueSize (value c.arena.room bs)
    ∃ b, text o field bs c =
        { c.mapTags (·.setText (some (Text.decode found)) field) with arena := b } ∧
      c.arena.Takes (found.length + 1) b := by
  have hroom : (value c.arena.room bs).length < c.arena.remaining := by
    have hpos := List.length_pos_of_ne_nil hne
    have hle : (value c.arena.room bs).length ≤ c.arena.room := List.length_take_le _ _
    rw [Arena.room] at hle hpos ⊢
    omega
  obtain ⟨b, hb, htakes⟩ := Arena.commit_written hne hmost hroom
  refine ⟨b, ?_, htakes⟩
  rw [text, if_pos ⟨hne, Option.isNone_iff_eq_none.2 hunset⟩]
  simp only [load, Collected.mapArena, hb, Collected.keep, Collected.mapTags]

end TagContent

namespace Collected
variable {o : Options} {kind : Kind} {c d e : Collected}

/-- What reading a tag costs: nothing if no text is set, and else what the text takes. Only a tag
with a text of its own for the genre is charged for it. -/
inductive Charge (o : Options) (kind : Kind) (c d : Collected) : Prop
  | free (htakes : c.arena.Takes 0 d.arena)
      (hkept : ∀ f, (f = .text .genre → kind = .customGenre) →
        d.track.tags.kept f = c.track.tags.kept f)
  | text (field : KeptField) (value : String) (size : Nat)
      (hcharged : c.arena.Charged value (max o.maxValueSize 12) d.arena size)
      (hgenre : field = .text .genre → kind = .customGenre)
      (hnone : c.track.tags.kept field = none)
      (hkept : ∀ f, d.track.tags.kept f = if f = field then some value else c.track.tags.kept f)

theorem Charge.refl (c : Collected) : Charge o kind c c := .free ⟨rfl, rfl⟩ fun _ _ => rfl

theorem Charge.of_kept (h : Charge o kind c d) (harena : e.arena = d.arena)
    (hkept : ∀ f, e.track.tags.kept f = d.track.tags.kept f) : Charge o kind c e := by
  cases h with
  | free htakes hsame => exact .free (harena ▸ htakes) fun f hf => (hkept f).trans (hsame f hf)
  | text field value size hcharged hgenre hnone hset =>
    exact .text field value size (harena ▸ hcharged) hgenre hnone fun f => (hkept f).trans (hset f)

theorem charge_load (bs : Bytes) : Charge o kind c (TagContent.load bs c) :=
  .free (c.arena.takes_write _) fun _ _ => rfl

theorem charge_text {field : TextField} (hg : field = .genre → kind = .customGenre) (bs : Bytes) :
    Charge o kind c (TagContent.text o field bs c) := by
  obtain h | ⟨hnone, filled, value, a, hcommit, h⟩ := TagContent.text_cases o field bs c
  · rw [h]
    exact charge_load bs
  · obtain ⟨size, hcharged⟩ := Arena.charged_commit hcommit
    rw [h]
    refine .text (.text field) value size ?_ (fun hf => hg (KeptField.text.inj hf)) hnone
      (Tags.kept_setText _ _ field)
    exact ⟨hcharged.takes.of_write, hcharged.pos, by have := hcharged.le; omega, hcharged.text_le⟩

theorem charge_numbering {field : NumberField} (bs : Bytes)
    (hc : (c.track.tags.numbering field).Written) :
    Charge o kind c (TagContent.numbering field bs c) := by
  obtain h | ⟨hnumber, m, hm, h | ⟨n, a, -, hn, halloc, h⟩⟩ := TagContent.numbering_cases bs hc
  · rw [h]
    exact .refl c
  · rw [h]
    refine .free ⟨rfl, rfl⟩ fun f _ => ?_
    refine (Tags.kept_setNumbering c.track.tags ⟨some m, none⟩ field f).trans ?_
    split
    · rename_i hf
      rw [hf]
      exact (hc.text_eq_none hnumber).symm
    · rfl
  · obtain ⟨size, hcharged⟩ := Arena.charged_alloc hm hn halloc
    rw [h]
    refine .text (.numbering field) _ size ?_ nofun (hc.text_eq_none hnumber)
      (Tags.kept_setNumbering _ _ field)
    exact ⟨hcharged.takes, hcharged.pos, by have := hcharged.le; omega, hcharged.text_le⟩

theorem TagStep.charge (h : TagStep o kind c d)
    (hc : ∀ field, (c.track.tags.numbering field).Written) : Charge o kind c d := by
  cases h with
  | stay => exact .refl c
  | text field hf hg bs => exact charge_text hg bs
  | date bs =>
    have htext : Charge o kind c (TagContent.text o .date bs c) := charge_text (by nofun) bs
    refine htext.of_kept rfl fun f => ?_
    obtain f | f := f <;> cases f <;> rfl
  | genre hk bs =>
    rw [TagContent.genre]
    split
    · refine .free ⟨rfl, rfl⟩ fun f hf => ?_
      obtain f | f := f
      · cases f with
        | genre => cases hk.symm.trans (hf rfl)
        | _ => rfl
      · cases f <;> rfl
    · exact .refl c
  | numbering field bs => exact charge_numbering bs (hc field)
  | cover hk art hnone =>
    refine (Charge.refl c).of_kept rfl fun f => ?_
    obtain f | f := f <;> cases f <;> rfl
  | gapless bs => exact (Charge.refl c).of_kept rfl fun f => rfl
  | gain key bs =>
    rw [TagContent.gain]
    split
    · refine (charge_load bs).of_kept rfl fun f => ?_
      obtain f | f := f <;> cases f <;> rfl
    · exact charge_load bs

/-- Reading a tag uses more of the arena if and only if it sets a text that counts. -/
theorem Charge.used_lt_iff (h : Charge o kind c d) :
    c.arena.used < d.arena.used ↔ ∃ field : KeptField, field.Counts kind ∧
      c.track.tags.kept field = none ∧ (d.track.tags.kept field).isSome := by
  cases h with
  | free htakes hsame =>
    refine ⟨fun hlt => ?_, ?_⟩
    · have hused := htakes.used
      omega
    · rintro ⟨field, hcounts, hnone, hsome⟩
      rw [hsame field (KeptField.counts_iff.mp hcounts), hnone] at hsome
      cases hsome
  | text field value size hcharged hgenre hnone hset =>
    have hused := hcharged.takes.used
    have hpos := hcharged.pos
    refine iff_of_true (by omega) ⟨field, KeptField.counts_iff.mpr hgenre, hnone, ?_⟩
    rw [hset, if_pos rfl]
    rfl

theorem Charge.used_le (h : Charge o kind c d) :
    c.arena.used ≤ d.arena.used ∧ d.arena.used ≤ c.arena.used + max o.maxValueSize 12 := by
  cases h with
  | free htakes hsame =>
    have hused := htakes.used
    omega
  | text field value size hcharged hgenre hnone hset =>
    have hused := hcharged.takes.used
    have hle := hcharged.le
    omega

/-- What is used accounts for the texts of the record, in an arena of a fixed size. -/
structure Accounted (capacity : Nat) (c : Collected) : Prop where
  written : ∀ field, (c.track.tags.numbering field).Written
  whole : c.arena.used + c.arena.remaining = capacity
  covered : (c.track.tags.keptTexts.map Tags.weight).sum ≤ 3 * c.arena.used

theorem accounted_fresh (capacity : Nat) :
    Accounted capacity { arena := .ofCapacity capacity } where
  written field text h := by cases field <;> cases h
  whole := by simp [Arena.used, Arena.remaining, Arena.ofCapacity]
  covered := Nat.le_refl 0

theorem TagStep.accounted {capacity : Nat} (h : TagStep o kind c d) (hc : c.Accounted capacity) :
    d.Accounted capacity := by
  have hwhole := hc.whole
  have hcovered := hc.covered
  cases h.charge hc.written with
  | free htakes hsame =>
    have htexts : d.track.tags.keptTexts = c.track.tags.keptTexts :=
      List.filterMap_congr fun f hf => hsame f fun hg => absurd hg (KeptField.mem_arenaOnly.mp hf)
    have hused := htakes.used
    have hremaining := htakes.remaining
    refine ⟨h.written hc.written, by omega, ?_⟩
    rw [htexts]
    omega
  | text field value size hcharged hgenre hnone hset =>
    have htexts : (d.track.tags.keptTexts.map Tags.weight).sum ≤
        (c.track.tags.keptTexts.map Tags.weight).sum + Tags.weight value :=
      Tags.sum_weight_le hnone hset (by decide)
    have hused := hcharged.takes.used
    have hremaining := hcharged.takes.remaining
    have htext : Tags.weight value ≤ 3 * size := hcharged.text_le
    exact ⟨h.written hc.written, by omega, by omega⟩

end Collected

namespace TagList
variable {o : Options} {capacity : Nat} {c d : Collected}

inductive Reads (o : Options) (c : Collected) : Collected → Prop
  | tag {σ : Type} [ByteStream false σ] (h : Header) (s : σ) :
    Reads o c ((readTag o h : Collect StreamError false Unit).exec c s).1.2

/-- What is collected between the tags of any number of lists, with an arena of the given size. -/
inductive Reachable (o : Options) (capacity : Nat) : Collected → Prop
  | fresh : Reachable o capacity { arena := .ofCapacity capacity }
  | tag {c d : Collected} (hc : Reachable o capacity c) (h : Reads o c d) : Reachable o capacity d

theorem Reachable.steps (hc : Reachable o capacity c) (h : Relation.ReflTransGen (Reads o) c d) :
    Reachable o capacity d := by
  induction h with
  | refl => exact hc
  | tail _ hstep ih => exact .tag ih hstep

theorem makes_reads (o : Options) (budget : Nat) :
    (TagList.read o budget : Collect StreamError false Unit).Makes (Reads o) :=
  makes_of_readTag (fun h => ⟨fun _ s => .single (.tag h s)⟩) budget

/-- A list that is read leads to nothing else, also if it fails. -/
theorem Reachable.list {σ : Type} [ByteStream false σ] (hc : Reachable o capacity c) (budget : Nat)
    (s : σ) :
    Reachable o capacity ((TagList.read o budget : Collect StreamError false Unit).exec c s).1.2 :=
  hc.steps ((makes_reads o budget).exec c s)

theorem Reachable.accounted (hc : Reachable o capacity c) : c.Accounted capacity := by
  induction hc with
  | fresh => exact Collected.accounted_fresh capacity
  | tag _ h ih =>
    obtain ⟨header, s⟩ := h
    exact (tagStep_readTag o header _ s).accounted ih

theorem Reachable.charge {σ : Type} [ByteStream false σ] (hc : Reachable o capacity c) (h : Header)
    (s : σ) : Collected.Charge o h.kind c
      ((readTag o h : Collect StreamError false Unit).exec c s).1.2 :=
  (tagStep_readTag o h c s).charge hc.accounted.written

theorem Reachable.used_le_of_steps (hc : Reachable o capacity c)
    (h : Relation.ReflTransGen (Reads o) c d) : c.arena.used ≤ d.arena.used := by
  induction h with
  | refl => exact Nat.le_refl _
  | tail hsteps hstep ih =>
    obtain ⟨header, s⟩ := hstep
    exact Nat.le_trans ih ((hc.steps hsteps).charge header s).used_le.1

/-- Whatever lists were read before, the arena is not used beyond its size and pays for the texts
that come from it. The next list leaves used what is used. A tag uses more if and only if it sets
a text that counts, and then no more than the longest value or the longest numbering takes. -/
theorem arena_accounts (hc : Reachable o capacity c) :
    (c.arena.used ≤ capacity ∧ c.track.tags.keptTexts.length ≤ c.arena.used ∧
      (c.track.tags.keptTexts.map fun text => (Text.encode text).length).sum ≤
        3 * (c.arena.used - c.track.tags.keptTexts.length)) ∧
    (∀ {σ : Type} [ByteStream false σ] (budget : Nat) (s : σ),
      let d := ((TagList.read o budget : Collect StreamError false Unit).exec c s).1.2
      Reachable o capacity d ∧ c.arena.used ≤ d.arena.used) ∧
    ∀ {σ : Type} [ByteStream false σ] (h : Header) (s : σ),
      let d := ((readTag o h : Collect StreamError false Unit).exec c s).1.2
      (c.arena.used < d.arena.used ↔ ∃ field : KeptField, field.Counts h.kind ∧
        c.track.tags.kept field = none ∧ (d.track.tags.kept field).isSome) ∧
      c.arena.used ≤ d.arena.used ∧ d.arena.used ≤ c.arena.used + max o.maxValueSize 12 := by
  have haccounted := hc.accounted
  refine ⟨?_, fun budget s => ⟨hc.list budget s, ?_⟩, fun h s => ?_⟩
  · have hwhole := haccounted.whole
    have hcovered := haccounted.covered
    rw [Tags.sum_weight] at hcovered
    refine ⟨by omega, by omega, by omega⟩
  · exact hc.used_le_of_steps ((makes_reads o budget).exec c s)
  · exact ⟨(hc.charge h s).used_lt_iff, (hc.charge h s).used_le⟩

set_option maxRecDepth 2048 in
/-- Two octets that are not well formed fill an arena of three, and their text is as long as it can
be. The number behind them is set without its text, and then the list breaks off. -/
theorem arena_accounts_replaced :
    let tag (kind : Kind) (value : Bytes) : Bytes :=
      Atom.octets kind.code (List.replicate 16 0 ++ value)
    let list := tag .title [0xFF, 0xFF] ++ tag .trackNumber [0, 0, 0, 1, 0, 2] ++ tag .artist [0x61]
    let c : Collected := { arena := .ofCapacity 3 }
    let d := (TagList.read {} (list.length + 8) : Collect StreamError false Unit).exec c
      (Slice.ofBytes list)
    d.1.1 = .error .underrun ∧ d.1.2.arena.used = 3 ∧
      d.1.2.track.tags.keptTexts = ["\uFFFD\uFFFD"] ∧ d.1.2.track.tags.track = ⟨some 1, none⟩ ∧
      (d.1.2.track.tags.keptTexts.map fun text => (Text.encode text).length).sum ≤
        3 * (d.1.2.arena.used - d.1.2.track.tags.keptTexts.length) := by
  intro tag list c d
  have hd : (d.1.1, d.1.2.arena.used, d.1.2.track.tags.keptTexts, d.1.2.track.tags.track) =
      (.error .underrun, 3, ["\uFFFD\uFFFD"], ⟨some 1, none⟩) := by
    simp only [d, c]
    cbv
  simp only [Prod.mk.injEq] at hd
  exact ⟨hd.1, hd.2.1, hd.2.2.1, hd.2.2.2,
    (arena_accounts (Reachable.fresh.list (list.length + 8) (Slice.ofBytes list))).1.2.2⟩

end TagList

end AudioAtoms
