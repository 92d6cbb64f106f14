import AudioAtoms.Proofs.Descriptors

/-!
# The form of descriptors

Descriptors tell a decoder configuration if and only if they have a form that is written down here
without the reader: fixed octets, the heads of the descriptors with their lengths, and a rest with
the configuration in front. Descriptors of any other form are no error, they tell nothing.

Where a length ends depends on what stands behind it, so its form speaks of the octets behind it
too. The other parts are put together behind each other.

Descriptors may also be larger than what is left of the stream. Their heads must be there all the
same. What is missing of the configuration behind them is read as zeros.
-/
namespace AudioAtoms

namespace Descriptor

def withDigit (value : Nat) (octet : UInt8) : Nat := value * 128 + octet.toNat % 128

def digits (ds : Bytes) : Nat := ds.foldl withDigit 0

/-- A length of at most `most` octets in front of a rest. It ends at its first octet below 128, at
the last one it may have, and at the end of the payload. -/
structure IsLength (most : Nat) (ds rest : Bytes) : Prop where
  pos : 1 ≤ ds.length
  le : ds.length ≤ most
  goesOn : ∀ d ∈ ds.dropLast, 128 ≤ d.toNat
  ends : (∃ d, ds.getLast? = some d ∧ d.toNat < 128) ∨ ds.length = most ∨ rest = []

/-- A tag octet and a length that tells the size, in front of a rest. -/
inductive Head (tag size : Nat) (rest : Bytes) : Bytes → Prop
  | mk (octet : UInt8) (ds : Bytes) (htag : octet.toNat = tag) (hlength : IsLength 4 ds rest)
      (hsize : digits ds = size) : Head tag size rest (octet :: ds)

/-- What stands before the decoder descriptor: the head of the stream descriptor and three octets,
or another octet and two more. -/
inductive Opening (rest : Bytes) : Bytes → Prop
  | stream {size : Nat} {head fixed : Bytes} (hhead : Head 0x03 size (fixed ++ rest) head)
      (hsize : 20 ≤ size) (hfixed : fixed.length = 3) : Opening rest (head ++ fixed)
  | bare {octet : UInt8} {fixed : Bytes} (hother : octet.toNat ≠ 0x03)
      (hfixed : fixed.length = 2) : Opening rest (octet :: fixed)

/-- Descriptors from the decoder descriptor on. Behind the head of the configuration, which tells
its size, stands the rest. -/
inductive DecoderForm (size : Nat) (rest : Bytes) : Bytes → Prop
  | mk {n : Nat} {decoder fixed specific : Bytes}
      (hdecoder : Head 0x04 n (fixed ++ (specific ++ rest)) decoder) (hn : 13 ≤ n)
      (hfixed : fixed.length = 13) (hspecific : Head 0x05 size rest specific) :
      DecoderForm size rest (decoder ++ (fixed ++ (specific ++ rest)))

inductive Form (size : Nat) (rest : Bytes) : Bytes → Prop
  | mk {version opening decoder : Bytes} (hversion : version.length = 4)
      (hopening : Opening decoder opening) (hdecoder : DecoderForm size rest decoder) :
      Form size rest (version ++ (opening ++ decoder))

section Lengths
variable {n value v : Nat} {bs rest : Bytes}

theorem isLength_singleton {most : Nat} {d : UInt8} :
    IsLength (most + 1) [d] rest ↔ d.toNat < 128 ∨ most = 0 ∨ rest = [] := by
  constructor
  · intro h
    simpa [eq_comm] using h.ends
  · intro h
    exact ⟨by simp, by simp, by simp, by simpa [eq_comm] using h⟩

/-- An octet in front of a length that is not over goes on, and leaves one octet less. -/
theorem isLength_cons {most : Nat} {d e : UInt8} {ds : Bytes} :
    IsLength (most + 1) (d :: e :: ds) rest ↔
      128 ≤ d.toNat ∧ IsLength most (e :: ds) rest := by
  constructor
  · intro h
    refine ⟨h.goesOn d (by simp), by simp, ?_, fun x hx => h.goesOn x ?_, ?_⟩
    · simpa using h.le
    · rw [List.dropLast_cons_of_ne_nil (List.cons_ne_nil e ds)]
      exact List.mem_cons_of_mem d hx
    · simpa using h.ends
  · rintro ⟨hd, h⟩
    refine ⟨by simp, by simpa using h.le, fun x hx => ?_, by simpa using h.ends⟩
    rw [List.dropLast_cons_of_ne_nil (List.cons_ne_nil e ds)] at hx
    obtain rfl | hx := List.mem_cons.mp hx
    · exact hd
    · exact h.goesOn x hx

/-- What is taken off the front is a length. -/
theorem isLength_of_lengthIn (h : lengthIn (n + 1) value bs = some (v, rest)) :
    ∃ ds, bs = ds ++ rest ∧ IsLength (n + 1) ds rest ∧ ds.foldl withDigit value = v := by
  induction n generalizing value bs with
  | zero =>
    cases bs with
    | nil => cases h
    | cons d bs =>
      have htaken : lengthIn 1 value (d :: bs) = some (withDigit value d, bs) := by
        simp only [lengthIn, ite_self]
        rfl
      cases htaken.symm.trans h
      exact ⟨[d], rfl, isLength_singleton.mpr (.inr (.inl rfl)), rfl⟩
  | succ n ih =>
    cases bs with
    | nil => cases h
    | cons d bs =>
      rw [lengthIn] at h
      by_cases hend : d.toNat < 128 ∨ bs = []
      · rw [if_pos hend] at h
        cases h
        exact ⟨[d], rfl, isLength_singleton.mpr (hend.imp_right .inr), rfl⟩
      · rw [if_neg hend] at h
        obtain ⟨ds, rfl, hds, hv⟩ := ih h
        cases ds with
        | nil => exact absurd hds.pos (by simp)
        | cons e ds =>
          have hd : 128 ≤ d.toNat := Nat.le_of_not_lt fun hlow => hend (.inl hlow)
          exact ⟨d :: e :: ds, rfl, isLength_cons.mpr ⟨hd, hds⟩, hv⟩

/-- A length is taken off the front as a whole. -/
theorem lengthIn_of_isLength {ds : Bytes} (h : IsLength n ds rest) :
    lengthIn n value (ds ++ rest) = some (ds.foldl withDigit value, rest) := by
  induction ds generalizing n value with
  | nil => exact absurd h.pos (by simp)
  | cons d ds ih =>
    cases n with
    | zero => exact absurd h.le (by simp)
    | succ n =>
      rw [List.cons_append, lengthIn]
      cases ds with
      | nil =>
        by_cases hend : d.toNat < 128 ∨ rest = []
        · rw [List.nil_append, if_pos hend]
          rfl
        · have hlast : n = 0 := by
            obtain hlow | hlast | hrest := isLength_singleton.mp h
            · exact absurd (.inl hlow) hend
            · exact hlast
            · exact absurd (.inr hrest) hend
          rw [List.nil_append, if_neg hend, hlast]
          rfl
      | cons e ds =>
        obtain ⟨hd, hds⟩ := isLength_cons.mp h
        rw [if_neg (by simp; omega)]
        exact ih hds

end Lengths

section Parts
variable {tag least size n : Nat} {bs rest : Bytes}

theorem inside?_eq_some_iff :
    inside? tag least bs = some (size, rest) ↔
      ∃ head, bs = head ++ rest ∧ Head tag size rest head ∧ least ≤ size := by
  constructor
  · intro h
    cases bs with
    | nil => cases h
    | cons octet bs =>
      rw [inside?] at h
      by_cases htag : octet.toNat = tag
      · rw [if_pos htag, Option.filter_eq_some_iff] at h
        obtain ⟨ds, rfl, hds, hsize⟩ := isLength_of_lengthIn h.1
        exact ⟨octet :: ds, rfl, ⟨octet, ds, htag, hds, hsize⟩, by simpa using h.2⟩
      · rw [if_neg htag] at h
        cases h
  · rintro ⟨_, rfl, ⟨octet, ds, htag, hds, rfl⟩, hleast⟩
    rw [List.cons_append, inside?, if_pos htag, lengthIn_of_isLength hds]
    exact Option.filter_eq_some_iff.mpr ⟨rfl, by simpa using hleast⟩

theorem behind?_eq_some_iff :
    behind? n bs = some rest ↔ ∃ fixed, bs = fixed ++ rest ∧ fixed.length = n := by
  rw [behind?]
  constructor
  · intro h
    split at h
    · cases h
      exact ⟨bs.take n, (List.take_append_drop n bs).symm, List.length_take_of_le ‹_›⟩
    · cases h
  · rintro ⟨fixed, rfl, rfl⟩
    rw [if_pos (by simp), List.drop_left]

theorem opening_of_behindStream (h : behindStream? bs = some rest) :
    ∃ opening, bs = opening ++ rest ∧ Opening rest opening := by
  cases bs with
  | nil => cases h
  | cons octet bs =>
    rw [behindStream?] at h
    by_cases htag : octet.toNat = streamTag
    · rw [if_pos htag, Option.bind_eq_some_iff] at h
      obtain ⟨⟨size, behind⟩, hinside, hbehind⟩ := h
      obtain ⟨head, hhead, hform, hsize⟩ := inside?_eq_some_iff.mp hinside
      obtain ⟨fixed, rfl, hfixed⟩ := behind?_eq_some_iff.mp hbehind
      refine ⟨head ++ fixed, ?_, .stream hform hsize hfixed⟩
      rw [hhead, List.append_assoc]
    · rw [if_neg htag] at h
      obtain ⟨fixed, rfl, hfixed⟩ := behind?_eq_some_iff.mp h
      exact ⟨octet :: fixed, rfl, .bare htag hfixed⟩

theorem behindStream_of_opening {opening : Bytes} (h : Opening rest opening) :
    behindStream? (opening ++ rest) = some rest := by
  cases h with
  | @stream size head fixed hhead hsize hfixed =>
    have hinside : inside? streamTag 20 (head ++ (fixed ++ rest)) = some (size, fixed ++ rest) :=
      inside?_eq_some_iff.mpr ⟨head, rfl, hhead, hsize⟩
    have hbehind : behind? 3 (fixed ++ rest) = some rest :=
      behind?_eq_some_iff.mpr ⟨fixed, rfl, hfixed⟩
    rw [List.append_assoc]
    cases hhead with
    | mk octet ds htag hlength hdigits =>
      have htag : octet.toNat = streamTag := htag
      rw [List.cons_append] at hinside ⊢
      rw [behindStream?, if_pos htag, hinside]
      exact hbehind
  | @bare octet fixed hother hfixed =>
    have hother : octet.toNat ≠ streamTag := hother
    rw [List.cons_append, behindStream?, if_neg hother]
    exact behind?_eq_some_iff.mpr ⟨fixed, rfl, hfixed⟩

theorem specificIn?_eq_some_iff :
    specificIn? bs = some (size, rest) ↔ DecoderForm size rest bs := by
  constructor
  · intro h
    obtain ⟨⟨n, _⟩, hfirst, h⟩ := Option.bind_eq_some_iff.mp h
    obtain ⟨_, hbehind, hsecond⟩ := Option.bind_eq_some_iff.mp h
    obtain ⟨decoder, rfl, hdecoder, hn⟩ := inside?_eq_some_iff.mp hfirst
    obtain ⟨fixed, rfl, hfixed⟩ := behind?_eq_some_iff.mp hbehind
    obtain ⟨specific, rfl, hspecific, -⟩ := inside?_eq_some_iff.mp hsecond
    exact .mk hdecoder hn hfixed hspecific
  · intro h
    cases h with
    | @mk n decoder fixed specific hdecoder hn hfixed hspecific =>
      have hfirst := inside?_eq_some_iff.mpr ⟨decoder, rfl, hdecoder, hn⟩
      have hbehind : behind? 13 (fixed ++ (specific ++ rest)) = some (specific ++ rest) :=
        behind?_eq_some_iff.mpr ⟨fixed, rfl, hfixed⟩
      have hsecond := inside?_eq_some_iff.mpr ⟨specific, rfl, hspecific, Nat.zero_le size⟩
      exact Option.bind_eq_some_iff.mpr ⟨_, hfirst, Option.bind_eq_some_iff.mpr
        ⟨_, hbehind, hsecond⟩⟩

/-- The form of descriptors is what taking them apart finds. -/
theorem specific?_eq_some_iff : specific? bs = some (size, rest) ↔ Form size rest bs := by
  constructor
  · intro h
    obtain ⟨_, hfirst, h⟩ := Option.bind_eq_some_iff.mp h
    obtain ⟨_, hstream, hdecoder⟩ := Option.bind_eq_some_iff.mp h
    obtain ⟨version, rfl, hversion⟩ := behind?_eq_some_iff.mp hfirst
    obtain ⟨opening, rfl, hopening⟩ := opening_of_behindStream hstream
    exact .mk hversion hopening (specificIn?_eq_some_iff.mp hdecoder)
  · intro h
    cases h with
    | @mk version opening decoder hversion hopening hdecoder =>
      exact Option.bind_eq_some_iff.mpr ⟨_, behind?_eq_some_iff.mpr ⟨version, rfl, hversion⟩,
        Option.bind_eq_some_iff.mpr ⟨_, behindStream_of_opening hopening,
          specificIn?_eq_some_iff.mpr hdecoder⟩⟩

theorem config?_eq_some_iff {config : DecoderConfig} :
    config? bs = some config ↔ ∃ size rest, Form size rest bs ∧
      config.bytes = rest.take (min (min size rest.length) 8) := by
  rw [config?_eq, Option.map_eq_some_iff]
  constructor
  · rintro ⟨⟨size, rest⟩, hspecific, rfl⟩
    exact ⟨size, rest, specific?_eq_some_iff.mp hspecific, by rw [ofBytes_take]⟩
  · rintro ⟨size, rest, hform, hconfig⟩
    obtain ⟨bytes⟩ := config
    cases hconfig
    exact ⟨(size, rest), specific?_eq_some_iff.mpr hform, ofBytes_take size rest⟩

end Parts

end Descriptor

namespace ElementaryStream
variable {bounded : Bool}

/-- Descriptors that are all there are read without leaving them. They tell a configuration if and
only if they have the form of descriptors with one, and then it is what stands behind the last
head: as many octets as the head says, as there are, and eight at most. -/
theorem config_eq_some_iff_form (payload tail : Bytes) (pos : Nat) :
    let start := Slice.mk pos (payload ++ tail)
    let run := (read payload.length : Scan bounded ElementaryStream).run start
    (∃ n ≤ payload.length, run.2 = start.advance n) ∧
      ∀ config, run.1.config = some config ↔ ∃ size rest, Descriptor.Form size rest payload ∧
        config.bytes = rest.take (min (min size rest.length) 8) := by
  intro start run
  obtain ⟨n, hn, hrun⟩ := exists_run_read (@Slice.supplies bounded) pos payload tail
  have hrun : run = _ := hrun
  refine ⟨⟨n, hn, ?_⟩, fun config => ?_⟩
  · rw [hrun, Slice.advance, List.drop_append_of_le_length hn]
  · rw [hrun]
    exact Descriptor.config?_eq_some_iff

/-- The length of the configuration is cut off by the end of the payload: it counts as it is, and
the configuration is empty. -/
example : ((read 24 : Scan false ElementaryStream).run (Slice.ofBytes
    ([0, 0, 0, 0, 1, 2, 3, 4, 13] ++ List.replicate 13 0 ++ [5, 0x82]))).1 = ⟨some ⟨[]⟩⟩ := by
  decide

end ElementaryStream

namespace Descriptor

/-- Octets with a window of the given size on them, divided by descriptors with a configuration:
the octets up to the last head, what is there of the configuration, and the others. Behind the heads
the window shows a rest, and the configuration is the front of it. It is all there, or the octets
end inside it. -/
structure Division (size : Nat) (octets : Bytes) where
  declared : Nat
  heads : Bytes
  rest : Bytes
  info : Bytes
  others : Bytes
  shown : Bytes.padded size octets = heads ++ rest
  form : Form declared rest (Bytes.padded size octets)
  there : octets = heads ++ (info ++ others)
  le : info.length ≤ min (min declared rest.length) 8
  ends : info.length < min (min declared rest.length) 8 → others = []

namespace Division
variable {size : Nat} {octets : Bytes}

/-- How many octets of the configuration are missing. Its size is what its head says, cut to the
window and to eight octets. -/
def missing (d : Division size octets) : Nat :=
  min (min d.declared d.rest.length) 8 - d.info.length

theorem drop_heads (d : Division size octets) :
    octets.drop d.heads.length = d.info ++ d.others := by
  have hdrop := congrArg (List.drop d.heads.length) d.there
  rwa [List.drop_left] at hdrop

theorem take_rest (d : Division size octets) :
    d.rest.take (min (min d.declared d.rest.length) 8) =
      d.info ++ List.replicate d.missing 0 := by
  have hrest : Bytes.padded (size - d.heads.length) (d.info ++ d.others) = d.rest := by
    rw [← d.drop_heads, ← Bytes.drop_padded, d.shown, List.drop_left]
  have hlen : d.rest.length = size - d.heads.length := by rw [← hrest, Bytes.length_padded]
  rw [← hrest, Bytes.length_padded, Bytes.take_padded (by omega), ← hlen,
    Bytes.padded_append d.le d.ends, missing]

/-- Where the octets are divided so, the reader finds the configuration with zeros for what is
missing of it, and stands behind what is there. -/
theorem exec_config (d : Division size octets) (pos : Nat) :
    let window : Scoped Slice := ⟨⟨pos, octets⟩, .ofSize size⟩
    config.exec window = (.ok (some ⟨d.info ++ List.replicate d.missing 0⟩),
      window.advance (d.heads.length + d.info.length)) := by
  intro window
  obtain ⟨n, hn, hrest, hgo, -⟩ :=
    Descriptor.exec_config (s := window) (specific?_eq_some_iff.mpr d.form)
  have hlen : window.view.length = d.heads.length + d.rest.length := by
    rw [← List.length_append, ← d.shown]
    rfl
  have hheads : n = d.heads.length := by
    have := congrArg List.length hrest
    rw [List.length_drop] at this
    omega
  have hthere : window.inner.rest.length =
      d.heads.length + (d.info.length + d.others.length) := by
    rw [← List.length_append, ← List.length_append, ← d.there]
  have hinfo : min (min (min d.declared d.rest.length) 8)
      (d.info.length + d.others.length) = d.info.length := by
    have hle := d.le
    by_cases hends : d.info.length < min (min d.declared d.rest.length) 8
    · rw [d.ends hends, List.length_nil]
      omega
    · omega
  have htake : d.rest.take (min (min d.declared d.rest.length) DecoderConfig.maxSize) =
      d.info ++ List.replicate d.missing 0 := d.take_rest
  subst hheads
  rw [hgo (by omega), htake, hthere, Nat.add_sub_cancel_left]
  exact congrArg (fun k => (_, window.advance (d.heads.length + k))) hinfo

/-- The octets in which the reader finds a configuration are divided by it. -/
theorem exists_of_found {pos : Nat} {c : DecoderConfig}
    (h : config.found ⟨⟨pos, octets⟩, .ofSize size⟩ = some c) :
    Nonempty (Division size octets) := by
  let window : Scoped Slice := ⟨⟨pos, octets⟩, .ofSize size⟩
  cases hspecific : specific? window.view with
  | none => cases h.symm.trans (parses_config.fails window hspecific)
  | some r =>
    obtain ⟨declared, rest⟩ := r
    obtain ⟨n, hn, hrest, -, hshort⟩ := Descriptor.exec_config hspecific
    have hthere : n ≤ octets.length := Nat.le_of_not_lt fun hlt => by
      cases h.symm.trans (hshort hlt)
    have hheads : window.view.take n = octets.take n := by
      rw [Scoped.view, Bytes.take_padded (window.length_view ▸ hn), Bytes.padded_of_le hthere]
    let most := min (min declared rest.length) 8
    exact ⟨{
      declared := declared
      heads := octets.take n
      rest := rest
      info := (octets.drop n).take most
      others := (octets.drop n).drop most
      shown := by
        rw [hrest, ← hheads]
        exact (List.take_append_drop n window.view).symm
      form := specific?_eq_some_iff.mp hspecific
      there := by rw [List.take_append_drop, List.take_append_drop]
      le := List.length_take_le most _
      ends := fun hlt => by
        rw [List.length_take] at hlt
        exact List.drop_eq_nil_of_le (by omega) }⟩

end Division

end Descriptor

namespace ElementaryStream

/-- Descriptors of any size, whether or not the stream has so many octets, tell a configuration if
and only if they divide the octets of the stream. The configuration is what is there of it. Where
the stream ends inside the configuration, zeros stand for the rest of it, and that is no error. -/
theorem config_eq_some_iff_division (size pos : Nat) (octets : Bytes) (config : DecoderConfig) :
    let run := (read size : Scan false ElementaryStream).run (Slice.mk pos octets)
    run.1.config = some config ↔ ∃ d : Descriptor.Division size octets,
      config.bytes = d.info ++ List.replicate d.missing 0 ∧
      run.2 = ⟨pos + d.heads.length + d.info.length, d.others⟩ := by
  intro run
  let window : Scoped Slice := ⟨⟨pos, octets⟩, .ofSize size⟩
  have hrun : run =
      (⟨Descriptor.config.found window⟩, (Descriptor.config.exec window).2.inner) := by
    simp only [run]
    rw [run_read_eq, Scoped.run_within]
    rfl
  have hdivided (d : Descriptor.Division size octets) :
      run = (⟨some ⟨d.info ++ List.replicate d.missing 0⟩⟩,
        ⟨pos + d.heads.length + d.info.length, d.others⟩) := by
    have hothers : octets.drop (d.heads.length + d.info.length) = d.others := by
      rw [← List.drop_drop, d.drop_heads, List.drop_left]
    rw [hrun, Read.found, d.exec_config pos, ← hothers, Nat.add_assoc]
    rfl
  constructor
  · intro h
    rw [hrun] at h
    obtain ⟨d⟩ := Descriptor.Division.exists_of_found h
    rw [← hrun, hdivided d] at h
    cases h
    exact ⟨d, rfl, congrArg Prod.snd (hdivided d)⟩
  · rintro ⟨d, hbytes, -⟩
    obtain ⟨bytes⟩ := config
    rw [hdivided d]
    exact congrArg (fun bytes => some (DecoderConfig.mk bytes)) hbytes.symm

/-- The stream ends behind the first of two octets of a configuration. The reader does not give it
up, and makes up an octet that changes the rate. -/
theorem config_made_up :
    let octets : Bytes :=
      [0, 0, 0, 0, 0, 1, 2, 4, 17, 0x40, 0x15] ++ List.replicate 11 0 ++ [5, 2, 0x13]
    let run := (read 26 : Scan false ElementaryStream).run (Slice.ofBytes octets)
    let whole := (read 26 : Scan false ElementaryStream).run (Slice.ofBytes (octets ++ [0x90]))
    run = (⟨some ⟨[0x13, 0]⟩⟩, ⟨25, []⟩) ∧ (∀ n < 25, (octets.drop n).take 2 ≠ [0x13, 0]) ∧
      run.1.apply true 0 = (48000, true) ∧ whole.1.apply true 0 = (44100, true) := by
  decide

end ElementaryStream

end AudioAtoms
