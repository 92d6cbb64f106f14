import AudioAtoms.Proofs.Checked.Arena
import AudioAtoms.Proofs.Checked.Atoms
import AudioAtoms.Tag.List

/-!
# Checked tags

The readers of tags, with every operation on words and buffers checked. A value is read into a
buffer of fixed size or into the spare part of the arena, and only the octets that came are looked
at. The position of a cover image is that of the stream, so it leaves room for the fields before it.
-/
namespace AudioAtoms
open Checked

namespace TagValue
open Guarded

def readChecked (most : Nat) : Guarded StreamError true Bytes := do
  if (← ofRead Read.remaining) < offset then return []
  ofRead (Read.skip offset)
  let size := min (← ofRead Read.remaining) most
  check (range 0 size most)
  let bs ← ofRead (Read.upTo size)
  return if bs.length = size then bs else []

theorem guards_read (most : Nat) : (readChecked most).Guards (read most) (·.length ≤ most) := by
  refine (guards_ofRead Read.yields_remaining).bind fun left _ => ?_
  by_cases h : left < offset
  · rw [if_pos h, if_pos h]
    exact guards_pure (Nat.zero_le _)
  · rw [if_neg h, if_neg h]
    refine (guards_ofRead (Read.yields_skip _)).bind fun _ _ =>
      (guards_ofRead Read.yields_remaining).bind fun size _ =>
        guards_check (range_ok (Nat.zero_le _) (Nat.min_le_right _ _)) ?_
    refine (guards_ofRead (Read.yields_upTo _)).bind fun bs hbs => guards_pure ?_
    split
    · exact Nat.le_trans hbs (Nat.min_le_right _ _)
    · exact Nat.zero_le _

end TagValue

abbrev GuardedTag := Collect (Faulty StreamError) true

namespace ReadTag
open Collect

def valueChecked (most : Nat) : GuardedTag Bytes := readGuarded (TagValue.readChecked most)

def valueIntoArenaChecked : GuardedTag Bytes := do
  let spare ← check (← get).arena.spareChecked
  check (range 0 (spare.length - 1) spare.length)
  let bs ← valueChecked (spare.length - 1)
  modifyArena (·.write bs)
  return bs

def textChecked (o : Options) (field : TextField) : GuardedTag Unit := do
  let bs ← valueIntoArenaChecked
  if bs ≠ [] ∧ ((← getTags).text field).isNone then
    let value ← keep (← check ((← get).arena.commitChecked bs.length o.maxValueSize))
    modifyTags (·.setText value field)

def dateChecked (o : Options) : GuardedTag Unit := do
  textChecked o .date
  modifyTags fun t => { t with year := t.date.bind Date.year? }

def genreChecked : GuardedTag Unit := do
  let bs ← valueChecked 2
  if bs.length = 2 ∧ (← getTags).genre.isNone then
    modifyTags fun t => { t with genre := Genre.nameFromOne? (Bytes.toNat bs) }

def numberingChecked (field : NumberField) : GuardedTag Unit := do
  let bs ← valueChecked 6
  if bs.length = 6 ∧ ((← getTags).numbering field).number.isNone then
    let m := Bytes.toNat (← check (part bs 2 4))
    let n := Bytes.toNat (← check (part bs 4 6))
    modifyTags fun t => t.setNumbering { t.numbering field with number := some m } field
    if 0 < n then
      let value ← keep (← check ((← get).arena.allocChecked s!"{m}/{n}"))
      modifyTags fun t => t.setNumbering { t.numbering field with text := value } field

def coverChecked : GuardedTag Unit := do
  if (← getTags).artwork.isNone then
    let pos ← check (add 64 (← readGuarded (.ofRead Read.position)) TagValue.offset)
    let size ← readGuarded (.ofRead Read.remaining)
    let bs ← valueChecked 8
    if let some type := imageType? bs then
      modifyTags fun t => { t with artwork := some ⟨type, pos, size - TagValue.offset⟩ }

def nameChecked : Guarded StreamError true String := do
  let meanSize ← .ofRead (Read.number 4)
  .ofRead (Read.skip (min (meanSize - 4) (← .ofRead Read.remaining)))
  let nameSize ← .ofRead (Read.number 4)
  .ofRead (Read.skip 8)
  let size := min (nameSize - 12) (← .ofRead Read.remaining)
  let seen := min size maxNameSize
  .check (range 0 seen maxNameSize)
  let bs ← .ofRead (Read.upTo seen)
  let found ← .check (part (filled bs maxNameSize) 0 bs.length)
  let text ← .check (Text.decodeChecked found)
  .ofRead (Read.skip (← .check (sub size seen)))
  return if bs.length = seen then text else ""

def gaplessChecked : GuardedTag Unit := do
  check (range 0 maxGaplessSize (maxGaplessSize + 1))
  let bs ← valueChecked maxGaplessSize
  let found ← check (part (filled bs (maxGaplessSize + 1)) 0 bs.length)
  let value ← check (Text.decodeChecked found)
  let lead := Freeform.gaplessField value 1
  let tail := Freeform.gaplessField value 2
  modifyAudio fun a => { a with leadTrim := lead, tailTrim := tail }
  note (.gapless lead tail)

def gainChecked (o : Options) (key : String) : GuardedTag Unit := do
  let bs ← valueIntoArenaChecked
  if let some value ← check ((← get).arena.peekChecked bs.length o.maxValueSize) then
    let outcome := (← getTags).gain.offer key value
    modifyTags fun t => { t with gain := outcome.gain t.gain }
    noteIfAny (outcome.notice? key value)

def freeformChecked (o : Options) : GuardedTag Unit := do
  let key ← readGuarded nameChecked
  match Freeform.key? key with
  | some .composer => textChecked o .composer
  | some .gapless => gaplessChecked
  | some .musicBrainzTrack => textChecked o .musicBrainzTrack
  | some .albumArtist => textChecked o .albumArtist
  | none => gainChecked o key

def readChecked (o : Options) : Kind → GuardedTag Unit
  | .title => textChecked o .title
  | .artist => textChecked o .artist
  | .albumArtist => textChecked o .albumArtist
  | .grouping => textChecked o .grouping
  | .album => textChecked o .album
  | .composer => textChecked o .composer
  | .comment => textChecked o .comment
  | .customGenre => textChecked o .genre
  | .date => dateChecked o
  | .genre => genreChecked
  | .trackNumber => numberingChecked .track
  | .discNumber => numberingChecked .disc
  | .cover => if o.findArtwork then coverChecked else return ()
  | .freeform => freeformChecked o
  | _ => return ()

theorem guards_value (most : Nat) :
    (valueChecked most).Guards (Collect.read (TagValue.read most)) (·.length ≤ most) :=
  guards_readGuarded (TagValue.guards_read most)

theorem guards_valueIntoArena : valueIntoArenaChecked.Guards valueIntoArena fun _ => True := by
  refine guards_get.bind fun c _ => guards_check c.arena.spareChecked_eq ?_
  refine guards_check (range_ok (Nat.zero_le _) (Nat.sub_le _ _)) ?_
  exact (guards_value _).bind fun bs _ =>
    (guards_modifyArena fun _ ha => ha.write bs).bind fun _ _ => guards_pure trivial

theorem guards_text (o : Options) (field : TextField) :
    (textChecked o field).Guards (text o field) fun _ => True := by
  refine guards_valueIntoArena.bind fun bs _ => guards_getTags.bind fun tags _ => ?_
  split
  · refine guards_get.bind fun c hc => guards_check (Arena.commitChecked_eq hc.arena _ _) ?_
    exact (guards_keep fun _ _ h => hc.arena.commit h).bind fun _ _ => guards_modifyTags _
  · exact guards_pure trivial

theorem guards_genre : genreChecked.Guards genre fun _ => True := by
  refine (guards_value 2).bind fun bs _ => guards_getTags.bind fun tags _ => ?_
  split
  · exact guards_modifyTags _
  · exact guards_pure trivial

theorem guards_numbering (field : NumberField) :
    (numberingChecked field).Guards (numbering field) fun _ => True := by
  refine (guards_value 6).bind fun bs _ => guards_getTags.bind fun tags _ => ?_
  split
  next h =>
    have hm : part bs 2 4 = .ok ((bs.drop 2).take 2) := part_ok (by decide) (by omega)
    have hn : part bs 4 6 = .ok (bs.drop 4) := by
      rw [part_ok (by decide) (by omega), List.take_of_length_le]
      rw [List.length_drop]
      omega
    refine guards_check hm (guards_check hn ?_)
    refine (guards_modifyTags _).bind fun _ _ => ?_
    split
    · have htext := Text.length_encode_numbering_le
        (@Bytes.toNat_le_word ((bs.drop 2).take 2)
          (by rw [List.length_take, List.length_drop]; omega))
        (@Bytes.toNat_le_word (bs.drop 4) (by rw [List.length_drop]; omega))
      refine guards_get.bind fun c hc =>
        guards_check (Arena.allocChecked_eq hc.arena (Nat.lt_of_le_of_lt htext (by decide))) ?_
      exact (guards_keep fun _ _ h => hc.arena.alloc h).bind fun _ _ => guards_modifyTags _
    · exact guards_pure trivial
  next h => exact guards_pure trivial

theorem guards_cover : coverChecked.Guards cover fun _ => True := by
  refine guards_getTags.bind fun tags _ => ?_
  split
  · refine (guards_readGuarded (Guarded.guards_ofRead Read.yields_position)).bind
      fun pos hpos => ?_
    have hstart : pos + TagValue.offset < 2 ^ 64 := by
      unfold TagValue.offset
      omega
    refine guards_check (add_ok hstart) ?_
    refine (guards_readGuarded (Guarded.guards_ofRead Read.yields_remaining)).bind fun size _ =>
      (guards_value 8).bind fun bs _ => ?_
    cases imageType? bs with
    | none => exact guards_pure trivial
    | some type => exact guards_modifyTags _
  · exact guards_pure trivial

theorem guards_name : nameChecked.Guards name fun _ => True := by
  refine (Guarded.guards_ofRead (Read.yields_number 4)).bind fun meanSize _ =>
    (Guarded.guards_ofRead Read.yields_remaining).bind fun _ _ =>
      (Guarded.guards_ofRead (Read.yields_skip _)).bind fun _ _ =>
        (Guarded.guards_ofRead (Read.yields_number 4)).bind fun nameSize _ =>
          (Guarded.guards_ofRead (Read.yields_skip 8)).bind fun _ _ =>
            (Guarded.guards_ofRead Read.yields_remaining).bind fun left _ => ?_
  refine Guarded.guards_check (range_ok (Nat.zero_le _) (Nat.min_le_right _ _)) ?_
  refine (Guarded.guards_ofRead (Read.yields_upTo _)).bind fun bs hbs => ?_
  have hsize : bs.length ≤ maxNameSize := Nat.le_trans hbs (Nat.min_le_right _ _)
  refine Guarded.guards_check (part_filled_length hsize) ?_
  refine Guarded.guards_check (Text.decodeChecked_eq bs) ?_
  exact Guarded.guards_check (sub_ok (Nat.min_le_left _ _))
    ((Guarded.guards_ofRead (Read.yields_skip _)).bind fun _ _ => Guarded.guards_pure trivial)

theorem guards_gapless : gaplessChecked.Guards gapless fun _ => True := by
  refine guards_check (range_ok (Nat.zero_le _) (Nat.le_add_right _ _)) ?_
  refine (guards_value _).bind fun bs hbs => ?_
  refine guards_check (part_filled_length (Nat.le_succ_of_le hbs)) ?_
  refine guards_check (Text.decodeChecked_eq bs) ?_
  refine (guards_modifyAudio ?_).bind fun _ _ => guards_note _
  exact fun a ha => ⟨ha.samples, ha.sampleRate, ha.bytes⟩

theorem guards_gain (o : Options) (key : String) :
    (gainChecked o key).Guards (gain o key) fun _ => True := by
  refine guards_valueIntoArena.bind fun bs _ => guards_get.bind fun c hc =>
    guards_check (Arena.peekChecked_eq hc.arena _ _) ?_
  cases c.arena.peek bs.length o.maxValueSize with
  | none => exact guards_pure trivial
  | some value =>
    exact guards_getTags.bind fun tags _ => (guards_modifyTags _).bind fun _ _ => guards_noteIfAny _

theorem guards_freeform (o : Options) : (freeformChecked o).Guards (freeform o) fun _ => True := by
  refine (guards_readGuarded guards_name).bind fun key _ => ?_
  cases Freeform.key? key with
  | none => exact guards_gain o key
  | some found =>
    cases found with
    | composer | musicBrainzTrack | albumArtist => exact guards_text o _
    | gapless => exact guards_gapless

theorem guards_read (o : Options) (kind : Kind) :
    (readChecked o kind).Guards (ReadTag.read o kind) fun _ => True := by
  cases kind with
  | title | artist | albumArtist | grouping | album | composer | comment | customGenre =>
    exact guards_text o _
  | date => exact (guards_text o _).bind fun _ _ => guards_modifyTags _
  | genre => exact guards_genre
  | trackNumber | discNumber => exact guards_numbering _
  | cover =>
    change Guards (if o.findArtwork then coverChecked else pure ())
      (if o.findArtwork then cover else pure ()) _
    split
    · exact guards_cover
    · exact guards_pure trivial
  | freeform => exact guards_freeform o
  | _ => exact guards_pure trivial

end ReadTag

end AudioAtoms
