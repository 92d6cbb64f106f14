import AudioAtoms.Proofs.Payload

/-!
# Windows over octets that may be missing

A window may be larger than what is left of the stream behind it. It then shows the octets that are
there, and zeros for those that are missing. A reader that takes one form after another off the
front goes on as long as the stream has the octets of the form, and finds nothing where it has not.
So what it finds is told by the octets shown and by the number of those that are there.
-/
namespace AudioAtoms

namespace Bytes
variable {m n : Nat} {bs : Bytes}

/-- So many octets from the front, with a zero octet for each that is missing. -/
def padded (n : Nat) (bs : Bytes) : Bytes := bs.take n ++ List.replicate (n - bs.length) 0

theorem length_padded (n : Nat) (bs : Bytes) : (padded n bs).length = n := by
  simp only [padded, List.length_append, List.length_take, List.length_replicate]
  omega

theorem padded_of_le (h : n ≤ bs.length) : padded n bs = bs.take n := by
  rw [padded, Nat.sub_eq_zero_of_le h, List.replicate_zero, List.append_nil]

theorem take_padded (h : m ≤ n) : (padded n bs).take m = padded m bs := by
  have hzeros : min (m - min n bs.length) (n - bs.length) = m - bs.length := by omega
  rw [padded, List.take_append, List.take_take, List.take_replicate, List.length_take, hzeros,
    Nat.min_eq_left h, padded]

theorem drop_padded (m n : Nat) (bs : Bytes) :
    (padded n bs).drop m = padded (n - m) (bs.drop m) := by
  have hzeros : n - bs.length - (m - min n bs.length) = n - m - (bs.length - m) := by omega
  rw [padded, List.drop_append, List.drop_take, List.drop_replicate, List.length_take, hzeros,
    padded, List.length_drop]

/-- Octets that are too few are filled up. -/
theorem padded_append {more : Bytes} (hle : bs.length ≤ n) (hends : bs.length < n → more = []) :
    padded n (bs ++ more) = bs ++ List.replicate (n - bs.length) 0 := by
  by_cases hlt : bs.length < n
  · rw [hends hlt, List.append_nil, padded, List.take_of_length_le hle]
  · have hn : n = bs.length := by omega
    rw [hn, padded_of_le (by simp), List.take_left, Nat.sub_self, List.replicate_zero,
      List.append_nil]

end Bytes

theorem Window.left_charge (w : Window) (n : Nat) : (w.charge n).left = w.left - n := by
  simp only [charge, left]
  omega

namespace Scoped
variable {s : Scoped Slice} {n : Nat}

/-- The octets in the window, with a zero octet for each that the stream does not have. -/
def view (s : Scoped Slice) : Bytes := Bytes.padded s.window.left s.inner.rest

def advance (s : Scoped Slice) (n : Nat) : Scoped Slice := ⟨s.inner.advance n, s.window.charge n⟩

theorem length_view (s : Scoped Slice) : s.view.length = s.window.left := Bytes.length_padded _ _

theorem view_advance (s : Scoped Slice) (n : Nat) : (s.advance n).view = s.view.drop n := by
  rw [view, advance, Window.left_charge, view, Bytes.drop_padded]
  rfl

theorem advance_advance (s : Scoped Slice) (m n : Nat) :
    (s.advance m).advance n = s.advance (m + n) := by
  simp only [advance, Slice.advance, Window.charge, List.drop_drop, Nat.add_assoc]

def Has (s : Scoped Slice) (n : Nat) : Prop := n ≤ s.view.length ∧ n ≤ s.inner.rest.length

theorem answer_eq (q : Request true) (s : Scoped Slice) :
    ByteStream.answer q s =
      let r := (s.window.answer q : Scan false _).run s.inner
      (r.1.1, ⟨r.2, r.1.2⟩) := rfl

theorem Has.not_lt (h : s.Has n) : ¬ s.window.left < n := Nat.not_lt.2 (s.length_view ▸ h.1)

theorem exec_exactly (h : s.Has n) :
    (Read.exactly n : Read true Bytes).exec s = (.ok (s.view.take n), s.advance n) := by
  have htake : s.view.take n = s.inner.rest.take n := by
    rw [view, Bytes.take_padded (s.length_view ▸ h.1), Bytes.padded_of_le h.2]
  rw [Read.exec_exactly, answer_eq, Window.answer, if_neg h.not_lt, Scan.run_ask,
    Slice.answer_exactly, if_pos h.2, htake]
  rfl

theorem exec_skip (h : s.Has n) :
    (Read.skip n : Read true Unit).exec s = (.ok (), s.advance n) := by
  rw [Read.exec_skip, answer_eq, Window.answer, if_neg h.not_lt, Scan.run_ask,
    Slice.answer_skip, if_pos h.2]
  rfl

theorem exec_exactly_of_not_has (h : ¬ s.Has n) :
    ∃ e t, (Read.exactly n : Read true Bytes).exec s = (.error e, t) := by
  rw [Read.exec_exactly, answer_eq, Window.answer]
  by_cases hw : s.window.left < n
  · rw [if_pos hw]
    exact ⟨.outOfBounds, _, rfl⟩
  · have hrest : ¬ n ≤ s.inner.rest.length := fun hrest =>
      h ⟨s.length_view ▸ Nat.not_lt.1 hw, hrest⟩
    rw [if_neg hw, Scan.run_ask, Slice.answer_exactly, if_neg hrest]
    exact ⟨.underrun, _, rfl⟩

theorem exec_skip_of_not_has (h : ¬ s.Has n) :
    ∃ e t, (Read.skip n : Read true Unit).exec s = (.error e, t) := by
  rw [Read.exec_skip, answer_eq, Window.answer]
  by_cases hw : s.window.left < n
  · rw [if_pos hw]
    exact ⟨.outOfBounds, _, rfl⟩
  · have hrest : ¬ n ≤ s.inner.rest.length := fun hrest =>
      h ⟨s.length_view ▸ Nat.not_lt.1 hw, hrest⟩
    rw [if_neg hw, Scan.run_ask, Slice.answer_skip, if_neg hrest]
    exact ⟨.underrun, _, rfl⟩

theorem exec_remaining_view (s : Scoped Slice) :
    Read.remaining.exec s = (.ok s.view.length, s) := by
  rw [s.length_view]
  rfl

/-- A request for up to so many octets comes back with those that are there. -/
theorem exec_upTo (s : Scoped Slice) (h : n ≤ s.view.length) :
    (Read.upTo n : Read true Bytes).exec s =
      (.ok (s.inner.rest.take n), s.advance (min n s.inner.rest.length)) := by
  have hmin : min s.window.left n = n := Nat.min_eq_right (s.length_view ▸ h)
  change ByteStream.answer (.upTo n : Request true) s = _
  rw [answer_eq, Window.answer, hmin, Scan.run_ask, Slice.answer_upTo]
  simp only [Scan.run_done, List.length_take]
  rfl

end Scoped

namespace Read
variable {α β γ : Type}

def found (p : Read true (Option β)) (s : Scoped Slice) : Option β := (p.exec s).1.toOption.join

theorem found_error {p : Read true (Option β)} {s t : Scoped Slice} {e : StreamError}
    (h : p.exec s = (.error e, t)) : p.found s = none := by
  rw [found, h]
  rfl

/-- The reader takes a form off the front of the window and goes on behind it. It does so if the
stream has the octets of the form. If it has not, or if the form is another one, the reader finds
nothing. -/
structure Parses (p : Read true (Option β)) (parse : Bytes → Option (α × Bytes))
    (k : α → Read true (Option β)) : Prop where
  fails : ∀ s : Scoped Slice, parse s.view = none → p.found s = none
  goesOn : ∀ (s : Scoped Slice) a rest, parse s.view = some (a, rest) →
    ∃ n ≤ s.view.length, rest = s.view.drop n ∧
      (n ≤ s.inner.rest.length → p.exec s = (k a).exec (s.advance n)) ∧
      (s.inner.rest.length < n → p.found s = none)

section Parses
variable {p : Read true (Option β)} {parse : Bytes → Option (α × Bytes)}
  {k : α → Read true (Option β)}

theorem Parses.congr {parse' : Bytes → Option (α × Bytes)} (hp : p.Parses parse k)
    (h : ∀ bs, parse bs = parse' bs) : p.Parses parse' k :=
  funext h ▸ hp

theorem parses_none (h : ∀ s, p.found s = none) : p.Parses (fun _ => none) k :=
  ⟨fun s _ => h s, fun _ _ _ h => nomatch h⟩

theorem parses_some (a : α) : (k a).Parses (fun bs => some (a, bs)) k := by
  refine ⟨fun _ h => (nomatch h), fun s a' rest h => ?_⟩
  cases h
  exact ⟨0, Nat.zero_le _, rfl, fun _ => rfl, fun h => absurd h (Nat.not_lt_zero _)⟩

theorem Parses.ite {q : Prop} [Decidable q] {r : Read true (Option β)}
    {parse' : Bytes → Option (α × Bytes)} (hp : p.Parses parse k) (hr : r.Parses parse' k) :
    (if q then p else r).Parses (fun bs => if q then parse bs else parse' bs) k := by
  by_cases hq : q
  · simp only [hq, if_true]
    exact hp
  · simp only [hq, if_false]
    exact hr

/-- What takes so many octets, or fails. -/
theorem parses_fixed {take : Read true α} {value : Bytes → α} (n : Nat)
    (hok : ∀ s : Scoped Slice, s.Has n → take.exec s = (.ok (value s.view), s.advance n))
    (herror : ∀ s : Scoped Slice, ¬ s.Has n → ∃ e t, take.exec s = (.error e, t))
    (k : α → Read true (Option β)) :
    (take >>= k).Parses (fun bs => if n ≤ bs.length then some (value bs, bs.drop n) else none)
      k := by
  have hfail (s : Scoped Slice) (h : ¬ s.Has n) : (take >>= k).found s = none := by
    obtain ⟨e, t, ht⟩ := herror s h
    exact found_error (exec_bind_error ht k)
  refine ⟨fun s h => ?_, fun s a rest h => ?_⟩
  · split at h
    · cases h
    · exact hfail s fun hhas => ‹¬ _› hhas.1
  · split at h
    · cases h
      exact ⟨n, ‹_›, rfl, fun hrest => exec_bind_ok (hok s ⟨‹_›, hrest⟩) k,
        fun hrest => hfail s fun hhas => Nat.not_lt.2 hhas.2 hrest⟩
    · cases h

theorem parses_skip (n : Nat) (k : Unit → Read true (Option β)) :
    (skip n >>= k).Parses (fun bs => if n ≤ bs.length then some ((), bs.drop n) else none) k :=
  parses_fixed n (fun _ => Scoped.exec_skip) (fun _ => Scoped.exec_skip_of_not_has) k

theorem parses_number (n : Nat) (k : Nat → Read true (Option β)) :
    (number n >>= k).Parses
      (fun bs => if n ≤ bs.length then some (Bytes.toNat (bs.take n), bs.drop n) else none) k := by
  refine parses_fixed n (fun s h => ?_) (fun s h => ?_) k
  · exact exec_bind_ok (Scoped.exec_exactly h) _
  · obtain ⟨e, t, ht⟩ := Scoped.exec_exactly_of_not_has h
    exact ⟨e, t, exec_bind_error ht _⟩

theorem parses_remaining (k : Nat → Read true (Option β)) :
    (remaining >>= k).Parses (fun bs => some (bs.length, bs)) k := by
  refine ⟨fun _ h => (nomatch h), fun s a rest h => ?_⟩
  cases h
  exact ⟨0, Nat.zero_le _, rfl, fun _ => exec_bind_ok s.exec_remaining_view k,
    fun h => absurd h (Nat.not_lt_zero _)⟩

/-- One form behind another. -/
theorem Parses.behind {parse' : α → Bytes → Option (γ × Bytes)} {k' : γ → Read true (Option β)}
    (hp : p.Parses parse k) (hk : ∀ a, (k a).Parses (parse' a) k') :
    p.Parses (fun bs => (parse bs).bind fun r => parse' r.1 r.2) k' := by
  have hfirst (s : Scoped Slice) {a : α} {rest : Bytes} (h : parse s.view = some (a, rest)) :=
    hp.goesOn s a rest h
  refine ⟨fun s h => ?_, fun s c rest h => ?_⟩
  · cases hparse : parse s.view with
    | none => exact hp.fails s hparse
    | some r =>
      obtain ⟨n, -, hrest, hgo, hshort⟩ := hfirst s hparse
      rw [hparse, Option.bind_some, hrest, ← s.view_advance] at h
      by_cases hn : n ≤ s.inner.rest.length
      · rw [found, hgo hn]
        exact (hk r.1).fails _ h
      · exact hshort (Nat.lt_of_not_le hn)
  · cases hparse : parse s.view with
    | none =>
      rw [hparse] at h
      cases h
    | some r =>
      obtain ⟨m, hm, hrest, hgo, hshort⟩ := hfirst s hparse
      rw [hparse, Option.bind_some, hrest, ← s.view_advance] at h
      obtain ⟨n, hn, hrest', hgo', hshort'⟩ := (hk r.1).goesOn _ c rest h
      rw [s.view_advance, List.length_drop] at hn
      rw [s.view_advance, List.drop_drop] at hrest'
      rw [s.advance_advance] at hgo'
      have hlen : (s.advance m).inner.rest.length = s.inner.rest.length - m := List.length_drop
      rw [hlen] at hgo' hshort'
      refine ⟨m + n, by omega, hrest', fun hle => ?_, fun hlt => ?_⟩
      · rw [hgo (by omega), hgo' (by omega)]
      · by_cases hm' : m ≤ s.inner.rest.length
        · rw [found, hgo hm']
          exact hshort' (by omega)
        · exact hshort (Nat.lt_of_not_le hm')

end Parses

end Read

end AudioAtoms
