import AudioAtoms.Proofs.Content
import AudioAtoms.Proofs.ShortWindow

/-!
# What descriptors say

The descriptors of an AAC entry as a function of their octets: each head is taken off in turn, and
the decoder configuration stands behind the last one. The reader finds the same configuration, and
none where a head is cut off, too short or of another tag. That the octets of the configuration are
there is not asked.
-/
namespace AudioAtoms

namespace Descriptor

def lengthIn : Nat → Nat → Bytes → Option (Nat × Bytes)
  | 0, value, bs => some (value, bs)
  | _ + 1, _, [] => none
  | n + 1, value, octet :: bs =>
    let value := value * 128 + octet.toNat % 128
    if octet.toNat < 128 ∨ bs = [] then some (value, bs) else lengthIn n value bs

def behind? (n : Nat) (bs : Bytes) : Option Bytes := if n ≤ bs.length then some (bs.drop n) else none

/-- What stands behind a tag octet and a length that is not below a bound. -/
def inside? (tag least : Nat) (bs : Bytes) : Option (Nat × Bytes) :=
  match bs with
  | [] => none
  | octet :: bs =>
    if octet.toNat = tag then (lengthIn 4 0 bs).filter fun r => least ≤ r.1 else none

/-- What stands behind the head of the stream descriptor, or behind what is in its place. -/
def behindStream? (bs : Bytes) : Option Bytes :=
  match bs with
  | [] => none
  | octet :: rest =>
    if octet.toNat = streamTag then (inside? streamTag 20 bs).bind fun r => behind? 3 r.2
    else behind? 2 rest

def decoder? (bs : Bytes) : Option DecoderConfig := do
  let (_, bs) ← inside? decoderTag 13 bs
  let bs ← behind? 13 bs
  let (size, bs) ← inside? configTag 0 bs
  return .ofBytes (bs.take size)

def config? (bs : Bytes) : Option DecoderConfig := do
  let bs ← behind? 4 bs
  let bs ← behindStream? bs
  decoder? bs

end Descriptor

def Content.elementaryStream? (bs : Bytes) : Option ElementaryStream :=
  (innerSize? Kind.elementaryStream.code bs).map fun size =>
    ⟨Descriptor.config? ((bs.drop 36).take size)⟩

theorem Bytes.toNat_take_one (octet : UInt8) (bs : Bytes) :
    Bytes.toNat ((octet :: bs).take 1) = octet.toNat := by
  simp [Bytes.toNat]

namespace Descriptor

def octet? : Bytes → Option (Nat × Bytes)
  | [] => none
  | octet :: bs => some (octet.toNat, bs)

/-- The size of the configuration and what stands behind its head, in the octets from the decoder
descriptor on. -/
def specificIn? (bs : Bytes) : Option (Nat × Bytes) := do
  let (_, bs) ← inside? decoderTag 13 bs
  let bs ← behind? 13 bs
  inside? configTag 0 bs

def specific? (bs : Bytes) : Option (Nat × Bytes) := do
  let bs ← behind? 4 bs
  let bs ← behindStream? bs
  specificIn? bs

/-- The configuration is what stands behind its head, as far as the head says. -/
theorem config?_eq (bs : Bytes) :
    config? bs = (specific? bs).map fun r => .ofBytes (r.2.take r.1) := by
  simp only [config?, specific?, decoder?, specificIn?, Option.bind_eq_bind, Option.map_eq_bind,
    Option.bind_assoc]
  rfl

def takeConfig (declared : Nat) : Read true (Option DecoderConfig) := do
  let size := min (min declared (← Read.remaining)) DecoderConfig.maxSize
  let bs ← Read.upTo size
  return some (.ofBytes (bs ++ List.replicate (size - bs.length) 0))

section Parses
open Read
variable {β : Type}

theorem parses_octet (k : Nat → Read true (Option β)) : (number 1 >>= k).Parses octet? k := by
  refine (parses_number 1 k).congr fun bs => ?_
  cases bs with
  | nil => rfl
  | cons octet bs =>
    rw [if_pos (by simp), Bytes.toNat_take_one]
    rfl

theorem parses_behind (n : Nat) (p : Read true (Option β)) :
    (skip n >>= fun _ => p).Parses (fun bs => (behind? n bs).map fun bs => ((), bs))
      fun _ => p := by
  refine (parses_skip n _).congr fun bs => ?_
  rw [behind?]
  split <;> rfl

theorem parses_lengthFrom (n value : Nat) (k : Nat → Read true (Option β)) :
    (lengthFrom n value >>= k).Parses (lengthIn n value) k := by
  induction n generalizing value with
  | zero => exact parses_some value
  | succ n ih =>
    have hsplit : lengthFrom (n + 1) value >>= k = (do
        let octet ← Read.number 1
        if octet < 128 then k (value * 128 + octet % 128)
        else
          let left ← Read.remaining
          if left = 0 then k (value * 128 + octet % 128)
          else lengthFrom n (value * 128 + octet % 128) >>= k) := by
      simp only [lengthFrom, bind_assoc]
      congr 1
      funext octet
      split
      · simp
      · simp only [bind_assoc]
        congr 1
        funext left
        split
        · simp
        · simp
    rw [hsplit]
    refine ((parses_octet _).behind fun octet => (parses_some (value * 128 + octet % 128)).ite
      ((parses_remaining _).behind fun left => (parses_some (value * 128 + octet % 128)).ite
        (ih (value * 128 + octet % 128)))).congr fun bs => ?_
    cases bs with
    | nil => rfl
    | cons octet bs =>
      by_cases hlow : octet.toNat < 128 <;> simp [octet?, lengthIn, hlow]

/-- A length that is not below a bound. -/
theorem parses_bounded {f k : Nat → Read true (Option β)} (least : Nat)
    (hshort : ∀ n s, n < least → (f n).found s = none) (hf : ∀ n, least ≤ n → f n = k n) :
    (length >>= f).Parses (fun bs => (lengthIn 4 0 bs).filter fun r => least ≤ r.1) k := by
  have hbound (n : Nat) :
      (f n).Parses (fun bs => if least ≤ n then some (n, bs) else none) k := by
    by_cases hn : least ≤ n
    · simp only [hn, if_true]
      rw [hf n hn]
      exact parses_some n
    · simp only [hn, if_false]
      exact parses_none fun s => hshort n s (Nat.lt_of_not_le hn)
  refine ((parses_lengthFrom 4 0 f).behind hbound).congr fun bs => ?_
  cases lengthIn 4 0 bs with
  | none => rfl
  | some r => simp [Option.filter]

/-- A descriptor head that is the one asked for. -/
theorem parses_inside {f h k : Nat → Read true (Option β)} (tag least : Nat)
    (htag : h tag = length >>= f) (hother : ∀ n s, n ≠ tag → (h n).found s = none)
    (hshort : ∀ n s, n < least → (f n).found s = none) (hf : ∀ n, least ≤ n → f n = k n) :
    (number 1 >>= h).Parses (inside? tag least) k := by
  have hlength (n : Nat) : (h n).Parses
      (fun bs => if n = tag then (lengthIn 4 0 bs).filter fun r => least ≤ r.1 else none) k := by
    by_cases hn : n = tag
    · simp only [hn, if_true]
      rw [htag]
      exact parses_bounded least hshort hf
    · simp only [hn, if_false]
      exact parses_none fun s => hother n s hn
  refine ((parses_octet h).behind hlength).congr fun bs => ?_
  cases bs <;> rfl

theorem parses_readSpecific : readSpecific.Parses (inside? configTag 0) takeConfig :=
  parses_inside configTag 0 (f := takeConfig) (if_neg (by simp))
    (fun n s h => by rw [if_pos h]; rfl) (fun n s h => absurd h (by omega)) fun n _ => rfl

theorem parses_readDecoder : readDecoder.Parses specificIn? takeConfig := by
  have hinside : readDecoder.Parses (inside? decoderTag 13) fun _ =>
      Read.skip 13 >>= fun _ => readSpecific :=
    parses_inside decoderTag 13 (if_neg (by simp)) (fun n s h => by rw [if_pos h]; rfl)
      (fun n s h => by rw [if_pos h]; rfl) (fun n h => if_neg (by omega))
  refine (hinside.behind fun _ => (parses_behind 13 readSpecific).behind fun _ =>
    parses_readSpecific).congr fun bs => ?_
  simp only [specificIn?, Option.bind_map, Option.bind_eq_bind]
  rfl

/-- The stream descriptor may be missing. -/
theorem parses_stream : Parses (do
      if (← Read.number 1) = streamTag then readStream (← length)
      else
        Read.skip 2
        readDecoder)
    (fun bs => (behindStream? bs).map fun bs => ((), bs)) fun _ => readDecoder := by
  have hstream : (length >>= readStream).Parses
      (fun bs => (lengthIn 4 0 bs).filter fun r => 20 ≤ r.1)
      fun _ => Read.skip 3 >>= fun _ => readDecoder :=
    parses_bounded 20 (fun n s h => by rw [readStream, if_pos h]; rfl)
      (fun n h => by rw [readStream, if_neg (by omega)])
  refine ((parses_octet _).behind fun tag =>
    (hstream.behind fun _ => parses_behind 3 readDecoder).ite
      (parses_behind 2 readDecoder)).congr fun bs => ?_
  cases bs with
  | nil => rfl
  | cons octet bs =>
    by_cases h : octet.toNat = streamTag
    · simp only [octet?, Option.bind_some, behindStream?, inside?, h, if_true, Option.map_bind]
      rfl
    · simp only [octet?, Option.bind_some, behindStream?, h, if_false]

theorem parses_config : config.Parses specific? takeConfig := by
  rw [config_eq]
  refine ((parses_behind 4 _).behind fun _ => parses_stream.behind fun _ =>
    parses_readDecoder).congr fun bs => ?_
  simp only [specific?, Option.bind_map, Option.bind_eq_bind]
  rfl

/-- Behind the head of the configuration the reader takes what is there of it, and fills it up
with zeros. -/
theorem exec_takeConfig (declared : Nat) (s : Scoped Slice) :
    let size := min (min declared s.view.length) DecoderConfig.maxSize
    (takeConfig declared).exec s =
      (.ok (some ⟨Bytes.padded size s.inner.rest⟩), s.advance (min size s.inner.rest.length)) := by
  intro size
  have hsize : size ≤ s.view.length := by omega
  have hpadded : s.inner.rest.take size ++
      List.replicate (size - (s.inner.rest.take size).length) 0 =
        Bytes.padded size s.inner.rest := by
    have hzeros : size - min size s.inner.rest.length = size - s.inner.rest.length := by omega
    rw [List.length_take, hzeros, Bytes.padded]
  have hconfig : DecoderConfig.ofBytes (Bytes.padded size s.inner.rest) =
      ⟨Bytes.padded size s.inner.rest⟩ := by
    rw [DecoderConfig.ofBytes, List.take_of_length_le]
    rw [Bytes.length_padded]
    exact Nat.min_le_right _ _
  rw [takeConfig, Read.exec_bind_ok s.exec_remaining_view]
  dsimp only
  rw [Read.exec_bind_ok (s.exec_upTo hsize), Read.exec_pure, hpadded, hconfig]

end Parses

/-- A configuration is the front of what stands behind its head. -/
theorem ofBytes_take (size : Nat) (rest : Bytes) :
    DecoderConfig.ofBytes (rest.take size) = ⟨rest.take (min (min size rest.length) 8)⟩ := by
  rw [DecoderConfig.ofBytes, List.take_take, List.take_eq_take_min]
  congr 2
  simp only [DecoderConfig.maxSize]
  omega

/-- The configuration that the reader finds, and where it then stands: the octets of the heads must
be there, those of the configuration need not. -/
theorem exec_config {s : Scoped Slice} {declared : Nat} {rest : Bytes}
    (hspecific : specific? s.view = some (declared, rest)) :
    ∃ n ≤ s.view.length, rest = s.view.drop n ∧
      let size := min (min declared rest.length) DecoderConfig.maxSize
      (n ≤ s.inner.rest.length → config.exec s =
        (.ok (some ⟨rest.take size⟩), s.advance (n + min size (s.inner.rest.length - n)))) ∧
      (s.inner.rest.length < n → config.found s = none) := by
  obtain ⟨n, hn, hrest, hgo, hshort⟩ := parses_config.goesOn s declared rest hspecific
  refine ⟨n, hn, hrest, fun hle => ?_, hshort⟩
  have hlen : (s.advance n).inner.rest.length = s.inner.rest.length - n := List.length_drop
  have hview : (s.advance n).view = rest := by rw [s.view_advance, hrest]
  have hpadded {size : Nat} (hsize : size ≤ (s.advance n).view.length) :
      Bytes.padded size (s.advance n).inner.rest = rest.take size := by
    rw [← hview, Scoped.view, Bytes.take_padded]
    rwa [← Scoped.length_view]
  rw [hgo hle, exec_takeConfig, hpadded (by omega), hview, hlen, s.advance_advance]

/-- The reader finds the configuration that the octets say. -/
theorem result_config (s : Payload) : (config.result s).join = config? s.rest := by
  let t : Scoped Slice := ⟨⟨s.pos, s.rest ++ []⟩, ⟨s.rest.length, 0, s.refused⟩⟩
  have hview : t.view = s.rest := by
    change Bytes.padded s.rest.length (s.rest ++ []) = s.rest
    rw [List.append_nil, Bytes.padded_of_le (Nat.le_refl _), List.take_length]
  have hall : t.view.length = t.inner.rest.length := by
    rw [hview]
    exact congrArg List.length (List.append_nil s.rest).symm
  have hfound : (config.result s).join = config.found t :=
    congrArg (fun r => r.toOption.join)
      (Slice.run_scoped config.run s.pos s.rest [] t.window (Nat.zero_add _).symm).symm
  rw [hfound, config?_eq, ← hview]
  cases hspecific : specific? t.view with
  | none => exact parses_config.fails t hspecific
  | some r =>
    obtain ⟨n, hn, hrest, hgo, -⟩ := exec_config hspecific
    rw [Read.found, hgo (hall ▸ hn), Option.map_some, ofBytes_take]
    rfl

end Descriptor

namespace ElementaryStream

theorem run_read_eq {bounded : Bool} {σ : Type} [ByteStream bounded σ] (size : Nat) (s : σ) :
    (read size : Scan bounded ElementaryStream).run s =
      let r := (Descriptor.config.run.within (.ofSize size) : Scan bounded _).run s
      (⟨r.1.1.toOption.join⟩, r.2) := by
  rw [read, Scan.bind_eq, Scan.run_bind]
  rcases (Descriptor.config.run.within (.ofSize size) : Scan bounded _).run s with ⟨⟨_ | _, w⟩, t⟩
    <;> rfl

/-- Descriptors that are all there are read from their own octets, and the reader stays inside
them. -/
theorem exists_run_read {inner : Bool} {σ : Type} [ByteStream inner σ] {stand : Nat → Bytes → σ}
    (hs : Supplies inner stand) (pos : Nat) (bs tail : Bytes) :
    ∃ n ≤ bs.length, (read bs.length : Scan inner ElementaryStream).run (stand pos (bs ++ tail)) =
      (⟨Descriptor.config? bs⟩, stand (pos + n) (bs.drop n ++ tail)) := by
  obtain ⟨n, hn, hpos, hrest⟩ := Payload.exists_advance Descriptor.config.run (.ofBytes pos bs)
  have hwithin : (Descriptor.config.run.within (.ofSize bs.length) : Scan inner _).run
      (stand pos (bs ++ tail)) = _ :=
    hs.run_within Descriptor.config.run (.ofBytes pos bs) (.ofSize bs.length) tail
      (Nat.zero_add _).symm rfl
  refine ⟨n, hn, ?_⟩
  rw [run_read_eq, hwithin]
  dsimp only
  rw [hpos, hrest]
  exact congrArg (fun config => (ElementaryStream.mk config, _))
    (Descriptor.result_config (.ofBytes pos bs))

/-- Descriptors inside a payload are read from their own octets. -/
theorem run_read (size pos : Nat) (rest : Bytes) (refused : Bool) :
    ((read (min size rest.length) : Scan true ElementaryStream).run
      (Payload.mk pos rest refused)).1 = ⟨Descriptor.config? (rest.take size)⟩ := by
  obtain ⟨n, -, hrun⟩ := exists_run_read (Payload.supplies refused) pos (rest.take size)
    (rest.drop size)
  rw [List.length_take, List.take_append_drop] at hrun
  rw [hrun]

end ElementaryStream

namespace SampleEntry

theorem result_aac (pos : Nat) (bs : Bytes) :
    ((aac bs.length).result (.ofBytes pos bs)).join = Content.elementaryStream? bs := by
  rw [aac, result_inner_bind .elementaryStream (by decide), Content.elementaryStream?]
  · cases Content.innerSize? Kind.elementaryStream.code bs with
    | none => rfl
    | some size =>
      have hroom : bs.length - fixedSize - Header.minSize = (bs.drop 36).length := by
        simp only [fixedSize, Header.minSize, List.length_drop]
        omega
      have hread := ElementaryStream.run_read size (pos + 36) (bs.drop 36) false
      rw [← hroom] at hread
      simp only [Option.bind_some, Option.map_some]
      rw [Read.result_bind_ok (Read.exec_lift _ _)]
      exact congrArg some hread
  · intro found h
    split
    · exact absurd rfl (h _ _)
    · rfl

end SampleEntry

end AudioAtoms
