import AudioAtoms.Proofs.TextCodec

/-!
# What stands in the arena

The arena is one buffer, and a mark divides what is kept from the spare part. Whatever is written
into the spare part, and whatever is kept of it or put in beside, the octets before the mark are the
values kept, one after the other, each with one zero octet behind it. Octets that were written and
not kept may stand behind the mark for long. They never get in between, and an operation that keeps
nothing changes nothing. A value that is only looked at is the one that would be kept, and it is
seen also where there is no room for keeping it.
-/
namespace AudioAtoms

theorem Bytes.nul_notMem_untilNul (bs : Bytes) : 0 ∉ bs.untilNul := by
  intro h
  have hne := List.all_eq_true.mp List.all_takeWhile 0 h
  simp at hne

namespace Arena
variable {a b : Arena}

def buffer (a : Arena) : Bytes := a.kept ++ a.spare

theorem length_buffer (a : Arena) : a.buffer.length = a.used + a.remaining := List.length_append

theorem take_used_buffer (a : Arena) : a.buffer.take a.used = a.kept := List.take_left

/-- One arena is the other with so many more octets used. -/
structure Takes (a : Arena) (size : Nat) (b : Arena) : Prop where
  used : b.used = a.used + size
  remaining : b.remaining + size = a.remaining

theorem takes_write (a : Arena) (bs : Bytes) : a.Takes 0 (a.write bs) := by
  refine ⟨rfl, ?_⟩
  simp only [remaining, write, List.length_append, List.length_take, List.length_drop]
  omega

theorem Takes.length_buffer_eq {size : Nat} (h : a.Takes size b) :
    b.buffer.length = a.buffer.length := by
  rw [length_buffer, length_buffer, h.used, ← h.remaining]
  omega

theorem Takes.of_write {bs : Bytes} {size : Nat} (h : (a.write bs).Takes size b) :
    a.Takes size b := by
  have hwrite := a.takes_write bs
  exact ⟨by rw [h.used, hwrite.used]; rfl, by rw [h.remaining, ← hwrite.remaining]; rfl⟩

theorem takes_append {bs : Bytes} (h : bs.length + 1 ≤ a.remaining) :
    a.Takes (bs.length + 1) ⟨a.kept ++ bs ++ [0], a.spare.drop (bs.length + 1)⟩ := by
  unfold remaining at h
  refine ⟨?_, ?_⟩
  · simp only [used, List.length_append, List.length_singleton, Nat.add_assoc]
  · simp only [remaining, List.length_drop]
    omega

/-- A value as it is kept: up to its first zero octet, and cut so that one fits in behind it. -/
def trimmed (most : Nat) (value : Bytes) : Bytes := value.untilNul.take (most - 1)

theorem trimmed_isPrefix (most : Nat) (value : Bytes) : trimmed most value <+: value :=
  (List.take_prefix _ _).trans (List.takeWhile_prefix _)

def found (a : Arena) (filled most : Nat) : Bytes := trimmed most (a.spare.take filled)

section Found
variable {filled most : Nat}

theorem found_isPrefix (a : Arena) (filled most : Nat) : a.found filled most <+: a.spare :=
  (trimmed_isPrefix _ _).trans (List.take_prefix _ _)

theorem take_length_found : a.spare.take (a.found filled most).length = a.found filled most :=
  (List.prefix_iff_eq_take.1 (a.found_isPrefix filled most)).symm

theorem length_found_le (a : Arena) (filled most : Nat) :
    (a.found filled most).length ≤ most - 1 :=
  List.length_take_le _ _

theorem nul_notMem_found : 0 ∉ a.found filled most :=
  fun h => Bytes.nul_notMem_untilNul _ (List.mem_of_mem_take h)

theorem valueSize_eq (hmost : most ≠ 0) :
    a.valueSize filled most = (a.found filled most).length + 1 := by
  rw [valueSize, found, trimmed, List.length_take]
  omega

theorem commit_eq (hfilled : filled ≠ 0) (hmost : most ≠ 0) :
    a.commit filled most =
      if a.remaining < (a.found filled most).length + 1 then
        .error (.noRoom ((a.found filled most).length + 1))
      else .ok (Text.decode (a.found filled most),
        ⟨a.kept ++ a.found filled most ++ [0], a.spare.drop ((a.found filled most).length + 1)⟩) := by
  rw [commit, if_neg (by simp [hfilled, hmost]), valueSize_eq hmost]
  simp only [valueText, Nat.add_sub_cancel, take_length_found]

theorem commit_eq_ok {text : String} (h : a.commit filled most = .ok (text, b)) :
    most ≠ 0 ∧ (a.found filled most).length + 1 ≤ a.remaining ∧
      text = Text.decode (a.found filled most) ∧
      b = ⟨a.kept ++ a.found filled most ++ [0], a.spare.drop ((a.found filled most).length + 1)⟩ := by
  by_cases hnone : filled = 0 ∨ most = 0
  · rw [commit, if_pos hnone] at h
    cases h
  · obtain ⟨hfilled, hmost⟩ := not_or.mp hnone
    rw [commit_eq hfilled hmost] at h
    split at h
    · cases h
    · rename_i hroom
      cases h
      exact ⟨hmost, Nat.le_of_not_lt hroom, rfl, rfl⟩

theorem peek_eq (hfilled : filled ≠ 0) (hmost : most ≠ 0) :
    a.peek filled most = some (Text.decode (a.found filled most)) := by
  have hle : (a.found filled most).length ≤ a.remaining := (a.found_isPrefix filled most).length_le
  rw [peek, if_neg (by simp [hfilled, hmost]), valueSize_eq hmost, Nat.min_eq_left (by omega),
    valueText, Nat.add_sub_cancel, take_length_found]

/-- The value is all of the spare part if that was filled to its end without a zero octet, and the
limit has room for one behind it. -/
theorem found_eq_spare_iff (hmost : most ≠ 0) :
    a.found filled most = a.spare ↔
      0 ∉ a.spare.take filled ∧ a.spare.length ≤ filled ∧ a.spare.length < most := by
  constructor
  · intro h
    have hlimit := a.length_found_le filled most
    have hfilled := (trimmed_isPrefix most (a.spare.take filled)).length_le
    rw [← found, h, List.length_take] at hfilled
    rw [h] at hlimit
    refine ⟨?_, by omega, by omega⟩
    rw [List.take_of_length_le (by omega), ← h]
    exact nul_notMem_found
  · rintro ⟨hnul, hfilled, hlimit⟩
    rw [List.take_of_length_le hfilled] at hnul
    rw [found, trimmed, List.take_of_length_le hfilled, Bytes.untilNul_eq hnul,
      List.take_of_length_le (by omega)]

/-- There is no room for a value that leaves none for its zero octet. -/
theorem commit_eq_error_iff (hfilled : filled ≠ 0) (hmost : most ≠ 0) :
    (∃ refusal, a.commit filled most = .error refusal) ↔ a.found filled most = a.spare := by
  rw [commit_eq hfilled hmost]
  constructor
  · rintro ⟨refusal, h⟩
    split at h
    · exact (a.found_isPrefix filled most).eq_of_length_le (Nat.lt_succ_iff.mp ‹_›)
    · cases h
  · intro h
    exact ⟨_, if_pos (by rw [h]; exact Nat.lt_succ_self _)⟩

/-- A value that is kept is the one that is seen without keeping it. A value is seen and not kept if
and only if the spare part was filled to its end without a zero octet and the limit does not cut it.
All of the spare part is then seen. -/
theorem peek_agrees_commit (a : Arena) (filled most : Nat) :
    (∀ text b, a.commit filled most = .ok (text, b) → a.peek filled most = some text) ∧
    ((∃ text, a.peek filled most = some text) ∧
        (∃ refusal, a.commit filled most = .error refusal) ↔
      0 < filled ∧ 0 < most ∧ 0 ∉ a.spare.take (min filled a.spare.length) ∧
        a.spare.length ≤ filled ∧ a.spare.length < most) ∧
    (∀ text refusal, a.peek filled most = some text → a.commit filled most = .error refusal →
      text = Text.decode a.spare) := by
  by_cases hnone : filled = 0 ∨ most = 0
  · have hpeek : a.peek filled most = none := if_pos hnone
    have hcommit : a.commit filled most = .error .nothing := if_pos hnone
    rw [hpeek, hcommit]
    refine ⟨nofun, ⟨?_, ?_⟩, nofun⟩
    · rintro ⟨⟨_, h⟩, -⟩
      cases h
    · rintro ⟨hfilled, hmost, -⟩
      omega
  · obtain ⟨hfilled, hmost⟩ := not_or.mp hnone
    have hpeek : a.peek filled most = some (Text.decode (a.found filled most)) :=
      peek_eq hfilled hmost
    refine ⟨fun text b h => ?_, ?_, fun text refusal htext h => ?_⟩
    · obtain ⟨-, -, rfl, -⟩ := commit_eq_ok h
      exact hpeek
    · rw [commit_eq_error_iff hfilled hmost, found_eq_spare_iff hmost, ← List.take_eq_take_min]
      exact ⟨fun h => ⟨Nat.pos_of_ne_zero hfilled, Nat.pos_of_ne_zero hmost, h.2⟩,
        fun h => ⟨⟨_, hpeek⟩, h.2.2⟩⟩
    · rw [hpeek, (commit_eq_error_iff hfilled hmost).mp ⟨refusal, h⟩] at htext
      exact (Option.some.inj htext).symm

/-- Three octets fill an arena of three. They are seen as a whole and not kept. Cut to three with
the zero octet, they are seen as they are kept, with a broken character at the end. -/
theorem peek_agrees_commit_full :
    let a := (ofCapacity 3).write [0x61, 0xc3, 0xa9]
    a.commit 9 4 = .error (.noRoom 4) ∧ a.peek 9 4 = some "aé" ∧
      a.commit 9 3 = .ok ("a\uFFFD", ⟨[0x61, 0xc3, 0], []⟩) ∧ a.peek 9 3 = some "a\uFFFD" := by
  intro a
  have hrefused : a.commit 9 4 = .error (.noRoom 4) := by
    simp only [a]
    cbv
  have hkept : a.commit 9 3 = .ok ("a\uFFFD", ⟨[0x61, 0xc3, 0], []⟩) := by
    simp only [a]
    cbv
  obtain ⟨-, hseen, hall⟩ := a.peek_agrees_commit 9 4
  obtain ⟨⟨text, htext⟩, -⟩ := hseen.mpr (by decide)
  have hdecode : Text.decode a.spare = "aé" := by
    simp only [a]
    cbv
  refine ⟨hrefused, ?_, hkept, (a.peek_agrees_commit 9 3).1 _ _ hkept⟩
  rw [htext, hall _ _ htext hrefused, hdecode]

end Found

section Written
variable {value : Bytes} {most : Nat}

theorem spare_write (hroom : value.length ≤ a.remaining) :
    (a.write value).spare = value ++ a.spare.drop value.length :=
  congrArg (· ++ a.spare.drop value.length) (List.take_of_length_le hroom)

theorem found_write (hroom : value.length ≤ a.remaining) :
    (a.write value).found value.length most = trimmed most value := by
  rw [found, spare_write hroom, List.take_left]

/-- A value that was written into the arena, with room for a zero octet behind it, is kept. -/
theorem commit_written (hne : value ≠ []) (hmost : most ≠ 0) (hroom : value.length < a.remaining) :
    ∃ b, (a.write value).commit value.length most = .ok (Text.decode (trimmed most value), b) ∧
      a.Takes ((trimmed most value).length + 1) b := by
  have hle := (trimmed_isPrefix most value).length_le
  have hremaining : (a.write value).remaining = a.remaining := (a.takes_write value).remaining
  have htakes := @takes_append (a.write value) (trimmed most value) (by omega)
  refine ⟨_, ?_, htakes.of_write⟩
  rw [commit_eq (mt List.eq_nil_of_length_eq_zero hne) hmost, found_write (Nat.le_of_lt hroom),
    if_neg (by omega)]

theorem peek_written (hne : value ≠ []) (hmost : most ≠ 0) (hroom : value.length ≤ a.remaining) :
    (a.write value).peek value.length most = some (Text.decode (trimmed most value)) := by
  rw [peek_eq (mt List.eq_nil_of_length_eq_zero hne) hmost, found_write hroom]

end Written

theorem alloc_eq_ok {text kept : String} (h : a.alloc text = .ok (kept, b)) :
    kept = text ∧ (Text.encode text).length + 1 ≤ a.remaining ∧
      b = ⟨a.kept ++ Text.encode text ++ [0], a.spare.drop ((Text.encode text).length + 1)⟩ := by
  rw [alloc] at h
  split at h
  · cases h
  · cases h
    exact ⟨rfl, Nat.le_of_not_lt ‹_›, rfl⟩

theorem alloc_takes {text : String} (hroom : (Text.encode text).length + 1 ≤ a.remaining) :
    ∃ b, a.alloc text = .ok (text, b) ∧ a.Takes ((Text.encode text).length + 1) b :=
  ⟨_, if_neg (Nat.not_lt.2 hroom), takes_append hroom⟩

/-- An operation on the arena. A write may start anywhere in the spare part. -/
inductive Op where
  | write (start : Nat) (bs : Bytes)
  | commit (filled most : Nat)
  | peek (filled most : Nat)
  | alloc (text : String)
deriving DecidableEq, Repr

inductive Reply where
  | written (n : Nat)
  | text (value : Option String)
deriving DecidableEq, Repr

/-- A value that was kept, without its zero octet, and the text given for it. -/
structure Entry where
  op : Op
  raw : Bytes
  text : String
deriving DecidableEq, Repr

def settle (a : Arena) : Except Refusal (String × Arena) → Reply × Arena
  | .ok (text, b) => (.text (some text), b)
  | .error _ => (.text none, a)

namespace Op

def run (a : Arena) : Op → Reply × Arena
  | write start bs =>
    (.written (min bs.length (a.remaining - start)), a.write (a.spare.take start ++ bs))
  | commit filled most => a.settle (a.commit filled most)
  | peek filled most => (.text (a.peek filled most), a)
  | alloc text => a.settle (a.alloc text)

def entry? (a : Arena) : Op → Option Entry
  | commit filled most =>
    (a.commit filled most).toOption.map fun kept =>
      ⟨commit filled most, a.found filled most, kept.1⟩
  | alloc text =>
    (a.alloc text).toOption.map fun kept => ⟨alloc text, Text.encode text, kept.1⟩
  | write _ _ | peek _ _ => none

def runAll (a : Arena) : List Op → List Entry × Arena
  | [] => ([], a)
  | op :: script =>
    ((op.entry? a).toList ++ (runAll (op.run a).2 script).1, (runAll (op.run a).2 script).2)

end Op

/-- The buffer of an arena of the given size holds the values, in order and from its start on. -/
structure Layout (capacity : Nat) (entries : List Entry) (a : Arena) : Prop where
  kept_eq : a.kept = entries.flatMap fun e => e.raw ++ [0]
  length_buffer_eq : a.buffer.length = capacity
  text_eq : ∀ e ∈ entries, e.text = Text.decode e.raw
  committed : ∀ e ∈ entries, ∀ filled most, e.op = .commit filled most →
    0 ∉ e.raw ∧ e.raw.length + 1 ≤ most

namespace Layout
variable {capacity : Nat} {entries : List Entry}

theorem ofCapacity (capacity : Nat) : Layout capacity [] (.ofCapacity capacity) :=
  ⟨rfl, by simp [buffer, Arena.ofCapacity], nofun, nofun⟩

/-- A value is added behind the others. -/
theorem append (h : Layout capacity entries a) {e : Entry} (htakes : a.Takes (e.raw.length + 1) b)
    (hkept : b.kept = a.kept ++ e.raw ++ [0]) (htext : e.text = Text.decode e.raw)
    (hcommitted : ∀ filled most, e.op = .commit filled most → 0 ∉ e.raw ∧ e.raw.length + 1 ≤ most) :
    Layout capacity (entries ++ [e]) b where
  kept_eq := by
    rw [hkept, h.kept_eq, List.flatMap_append, List.flatMap_singleton, List.append_assoc]
  length_buffer_eq := by
    rw [htakes.length_buffer_eq, h.length_buffer_eq]
  text_eq := by
    simp only [List.mem_append, List.mem_singleton]
    rintro x (hx | rfl)
    · exact h.text_eq x hx
    · exact htext
  committed := by
    simp only [List.mem_append, List.mem_singleton]
    rintro x (hx | rfl)
    · exact h.committed x hx
    · exact hcommitted

theorem step (h : Layout capacity entries a) (op : Op) :
    Layout capacity (entries ++ (op.entry? a).toList) (op.run a).2 := by
  cases op with
  | write start bs =>
    rw [Op.entry?, Option.toList_none, List.append_nil]
    exact ⟨h.kept_eq, (a.takes_write _).length_buffer_eq.trans h.length_buffer_eq, h.text_eq,
      h.committed⟩
  | peek filled most =>
    rw [Op.entry?, Option.toList_none, List.append_nil]
    exact h
  | commit filled most =>
    simp only [Op.entry?, Op.run]
    rcases hkept : a.commit filled most with refusal | ⟨text, b⟩
    · exact (List.append_nil entries).symm ▸ h
    · obtain ⟨hmost, hroom, htext, rfl⟩ := commit_eq_ok hkept
      have hlimit : (a.found filled most).length + 1 ≤ most := by
        have hle := a.length_found_le filled most
        omega
      refine h.append (takes_append hroom) rfl htext ?_
      rintro _ _ ⟨⟩
      exact ⟨nul_notMem_found, hlimit⟩
  | alloc text =>
    simp only [Op.entry?, Op.run]
    rcases hkept : a.alloc text with refusal | ⟨kept, b⟩
    · exact (List.append_nil entries).symm ▸ h
    · obtain ⟨rfl, hroom, rfl⟩ := alloc_eq_ok hkept
      exact h.append (takes_append hroom) rfl (Text.decode_encode _).symm nofun

theorem runAll (h : Layout capacity entries a) (script : List Op) :
    Layout capacity (entries ++ (Op.runAll a script).1) (Op.runAll a script).2 := by
  induction script generalizing entries a with
  | nil => exact (List.append_nil entries).symm ▸ h
  | cons op script ih =>
    rw [Op.runAll, ← List.append_assoc]
    exact ih (h.step op)

end Layout

/-- An operation that gives no text, and one that only looks, leaves the arena as it is. -/
theorem Op.run_eq_self {op : Op}
    (h : (op.run a).1 = .text none ∨ ∃ filled most, op = .peek filled most) : (op.run a).2 = a := by
  cases op with
  | write start bs => obtain h | ⟨_, _, h⟩ := h <;> cases h
  | peek filled most => rfl
  | commit filled most =>
    simp only [Op.run] at h ⊢
    rcases hkept : a.commit filled most with refusal | ⟨text, b⟩
    · rfl
    · rw [hkept] at h
      obtain h | ⟨_, _, h⟩ := h <;> cases h
  | alloc text =>
    simp only [Op.run] at h ⊢
    rcases hkept : a.alloc text with refusal | ⟨kept, b⟩
    · rfl
    · rw [hkept] at h
      obtain h | ⟨_, _, h⟩ := h <;> cases h

/-- Behind any script the used octets of the arena are the values kept, in order, each with one zero
octet behind it. The text given for a value decodes it, a value that was committed has no zero octet
and is within its limit, and the arena is not used beyond its size. An operation that then gives no
text, or only looks, changes nothing. -/
theorem layout_runAll (capacity : Nat) (script : List Op) :
    let r := Op.runAll (.ofCapacity capacity) script
    r.2.buffer.take r.2.used = r.1.flatMap (fun e => e.raw ++ [0]) ∧
    (∀ e ∈ r.1, e.text = Text.decode e.raw) ∧
    (∀ e ∈ r.1, ∀ filled most, e.op = .commit filled most →
      0 ∉ e.raw ∧ e.raw.length ≤ most - 1) ∧
    r.2.used ≤ capacity ∧ r.2.buffer.length = capacity ∧
    ∀ op : Op, (op.run r.2).1 = .text none ∨ (∃ filled most, op = .peek filled most) →
      (op.run r.2).2.used = r.2.used ∧ (op.run r.2).2.buffer = r.2.buffer := by
  intro r
  have h : Layout capacity r.1 r.2 := (Layout.ofCapacity capacity).runAll script
  refine ⟨?_, h.text_eq, ?_, ?_, h.length_buffer_eq, ?_⟩
  · rw [take_used_buffer, h.kept_eq]
  · intro e he filled most hop
    obtain ⟨hnul, hle⟩ := h.committed e he filled most hop
    exact ⟨hnul, by omega⟩
  · have hlen := h.length_buffer_eq
    rw [length_buffer] at hlen
    omega
  · intro op hop
    rw [Op.run_eq_self hop]
    exact ⟨rfl, rfl⟩

/-- A value that ends at its zero octet, one made of the octets left behind it, and a text beside
them. Then the arena is full. -/
theorem layout_runAll_stale :
    let script : List Op := [.write 0 [0x61, 0x62, 0, 0x63, 0x64], .commit 5 240, .commit 9 2,
      .peek 3 3, .alloc "é"]
    let r := Op.runAll (.ofCapacity 8) script
    (r.1.map fun e => (e.raw, e.text)) =
        [([0x61, 0x62], "ab"), ([0x63], "c"), ([0xc3, 0xa9], "é")] ∧
      r.2.buffer.take r.2.used = [0x61, 0x62, 0, 0x63, 0, 0xc3, 0xa9, 0] ∧
      ((Op.alloc "").run r.2).2.buffer = r.2.buffer := by
  intro script r
  have hentries : (r.1.map fun e => (e.raw, e.text)) =
      [([0x61, 0x62], "ab"), ([0x63], "c"), ([0xc3, 0xa9], "é")] := by
    simp only [r, script]
    cbv
  have hfull : ((Op.alloc "").run r.2).1 = .text none := by
    simp only [r, script]
    cbv
  obtain ⟨hfront, -, -, -, -, hidle⟩ := layout_runAll 8 script
  have hraw : r.1.flatMap (fun e => e.raw ++ [0]) =
      (r.1.map fun e => (e.raw, e.text)).flatMap (fun v => v.1 ++ [0]) := by
    rw [List.flatMap_map]
  refine ⟨hentries, ?_, (hidle (.alloc "") (.inl hfull)).2⟩
  rw [hfront, hraw, hentries]
  rfl

end Arena

end AudioAtoms
