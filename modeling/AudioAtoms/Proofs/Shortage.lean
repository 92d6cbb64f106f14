import AudioAtoms.Proofs.ShortWindow
import AudioAtoms.Proofs.Stopping

/-!
# Running out of octets

A run whose requests all find the octets they ask for takes no notice of what stands behind them.
In a window that is no larger than what is left every run is of this kind. In a larger one the
reader reports the shortage or leaves a part of the window that is not there, and then the shortage
shows as soon as that part is to be passed over.
-/
namespace AudioAtoms

def Request.need {bounded : Bool} : Request bounded → Nat
  | exactly n | upTo n | skip n => n
  | position | remaining _ => 0

def Slice.append (s : Slice) (more : Bytes) : Slice := ⟨s.pos, s.rest ++ more⟩

theorem Slice.answer_append (q : Request false) (s : Slice) (more : Bytes)
    (h : q.need ≤ s.rest.length) :
    ByteStream.answer q (s.append more) =
      ((ByteStream.answer q s).1, (ByteStream.answer q s).2.append more) := by
  obtain ⟨pos, rest⟩ := s
  have hlen (n : Nat) (hn : n ≤ rest.length) : n ≤ (rest ++ more).length := by
    rw [List.length_append]
    omega
  have htake (n : Nat) (hn : n ≤ rest.length) : (rest ++ more).take n = rest.take n :=
    List.take_append_of_le_length hn
  have hdrop (n : Nat) (hn : n ≤ rest.length) : (rest ++ more).drop n = rest.drop n ++ more :=
    List.drop_append_of_le_length hn
  cases q with
  | exactly n =>
    rw [append, Slice.supplies.exactly pos rest n h, Slice.supplies.exactly pos _ n (hlen n h),
      htake n h, hdrop n h]
    rfl
  | upTo n =>
    rw [append, Slice.supplies.upTo pos rest n h, Slice.supplies.upTo pos _ n (hlen n h),
      htake n h, hdrop n h]
    rfl
  | skip n =>
    rw [append, Slice.supplies.skip pos rest n h, Slice.supplies.skip pos _ n (hlen n h), hdrop n h]
    rfl
  | position => rfl
  | remaining hb => cases hb

namespace Scan
variable {bounded : Bool} {α β σ : Type}

theorem notices_bind [ByteStream bounded σ] (p : Scan bounded α) (f : α → Scan bounded β) (s : σ) :
    (p.bind f).notices s = p.notices s ++ (f (p.run s).1).notices (p.run s).2 := by
  induction p generalizing s with
  | done a => rfl
  | ask q next ih => exact ih _ _
  | note m rest ih => exact congrArg (m :: ·) (ih s)

/-- Descriptors were given up because the octets ran out. -/
def Cut [ByteStream bounded σ] (p : Scan bounded α) (s : σ) : Prop :=
  .descriptorsCut .underrun ∈ p.notices s

theorem cut_bind [ByteStream bounded σ] (p : Scan bounded α) (f : α → Scan bounded β) (s : σ) :
    (p.bind f).Cut s ↔ p.Cut s ∨ (f (p.run s).1).Cut (p.run s).2 := by
  rw [Cut, notices_bind, List.mem_append]
  rfl

theorem not_cut_done [ByteStream bounded σ] (a : α) (s : σ) : ¬(done a : Scan bounded α).Cut s :=
  List.not_mem_nil

theorem cut_note [ByteStream bounded σ] {m : Notice} (hm : m ≠ .descriptorsCut .underrun)
    (p : Scan bounded α) (s : σ) : (note m p).Cut s ↔ p.Cut s := by
  rw [Cut, notices, List.mem_cons]
  exact or_iff_right (Ne.symm hm)

inductive Quiet : Scan bounded α → Prop
  | done (a : α) : Quiet (.done a)
  | note (m : Notice) (rest : Scan bounded α) (hm : m ≠ .descriptorsCut .underrun)
      (hrest : Quiet rest) : Quiet (.note m rest)
  | ask (q : Request bounded) (next : q.Answer → Scan bounded α) (hnext : ∀ r, Quiet (next r)) :
      Quiet (.ask q next)

theorem Quiet.not_cut [ByteStream bounded σ] {p : Scan bounded α} (hp : p.Quiet) (s : σ) :
    ¬p.Cut s := by
  induction hp generalizing s with
  | done a => exact not_cut_done a s
  | note m rest hm _ ih => exact fun h => ih s ((cut_note hm rest s).mp h)
  | ask q next _ ih => exact ih _ _

theorem Quiet.bind {p : Scan bounded α} {f : α → Scan bounded β} (hp : p.Quiet)
    (hf : ∀ a, (f a).Quiet) : (p.bind f).Quiet := by
  induction hp with
  | done a => exact hf a
  | note m rest hm _ ih => exact .note m _ hm ih
  | ask q next _ ih => exact .ask q _ ih

theorem Stops.quiet {Ends : StreamError → Scan bounded α → Prop} {Good : α → Prop}
    {p : Scan bounded α} (hp : p.Stops Ends Good) (hends : ∀ e t, Ends e t → t.Quiet) :
    p.Quiet := by
  induction hp with
  | done a _ => exact .done a
  | note m rest hm _ ih => exact .note m rest hm ih
  | ask q next hfail _ ih =>
    refine .ask q next fun r => ?_
    rcases hr : q.failure? r with _ | e
    · exact ih r hr
    · exact hends e _ (hfail r e hr)

/-- No request of the run asks for more octets than there are. -/
def Enough : Scan bounded α → Slice → Prop
  | done _, _ => True
  | ask q next, s => q.need ≤ s.rest.length ∧
      (next (ByteStream.answer q s).1).Enough (ByteStream.answer q s).2
  | note _ rest, s => rest.Enough s

theorem enough_bind (p : Scan bounded α) (f : α → Scan bounded β) (s : Slice) :
    (p.bind f).Enough s ↔ p.Enough s ∧ (f (p.run s).1).Enough (p.run s).2 := by
  induction p generalizing s with
  | done a => exact (iff_of_eq (true_and _)).symm
  | ask q next ih =>
    rw [bind_ask, Enough, ih, Enough, run_ask, and_assoc]
  | note m rest ih => exact ih s

theorem Enough.run_append {p : Scan false α} {s : Slice} (h : p.Enough s) (more : Bytes) :
    p.run (s.append more) = ((p.run s).1, (p.run s).2.append more) := by
  induction p generalizing s with
  | done a => rfl
  | ask q next ih =>
    rw [run_ask, Slice.answer_append q s more h.1]
    exact ih _ h.2
  | note m rest ih => exact ih h

end Scan

namespace Window
variable {α : Type}

/-- All that a request through a window can do: it is served and charged, it is refused, or the
octets run out and it is charged all the same. -/
theorem answer_cases (w : Window) (q : Request true) (s : Slice) :
    let r := (w.answer q : Scan false _).run s
    (∃ n, n ≤ w.left ∧ n ≤ s.rest.length ∧ q.failure? r.1.1 = none ∧
      r.1.2 = w.charge n ∧ r.2 = s.advance n) ∨
    (q.failure? r.1.1 = some .outOfBounds ∧ r.1.2 = w.refuse ∧ r.2 = s) ∨
    (∃ n, n ≤ w.left ∧ s.rest.length < n ∧ q.failure? r.1.1 = some .underrun ∧
      r.1.2 = w.charge n ∧ r.2 = s ∧ ¬(w.answer q : Scan false _).Enough s) := by
  cases q with
  | exactly n =>
    simp only [answer]
    by_cases hw : w.left < n
    · rw [if_pos hw]
      exact .inr (.inl ⟨rfl, rfl, rfl⟩)
    · rw [if_neg hw, Scan.run_ask, Slice.answer_exactly]
      by_cases hs : n ≤ s.rest.length
      · rw [if_pos hs]
        exact .inl ⟨n, Nat.le_of_not_lt hw, hs, rfl, rfl, rfl⟩
      · rw [if_neg hs]
        exact .inr (.inr ⟨n, Nat.le_of_not_lt hw, Nat.lt_of_not_le hs, rfl, rfl, rfl,
          fun h => hs h.1⟩)
  | skip n =>
    simp only [answer]
    by_cases hw : w.left < n
    · rw [if_pos hw]
      exact .inr (.inl ⟨rfl, rfl, rfl⟩)
    · rw [if_neg hw, Scan.run_ask, Slice.answer_skip]
      by_cases hs : n ≤ s.rest.length
      · rw [if_pos hs]
        exact .inl ⟨n, Nat.le_of_not_lt hw, hs, rfl, rfl, rfl⟩
      · rw [if_neg hs]
        exact .inr (.inr ⟨n, Nat.le_of_not_lt hw, Nat.lt_of_not_le hs, rfl, rfl, rfl,
          fun h => hs h.1⟩)
  | upTo n =>
    have hlen : (s.rest.take (min w.left n)).length = min (min w.left n) s.rest.length :=
      List.length_take
    refine .inl ⟨min (min w.left n) s.rest.length, ?_, Nat.min_le_right _ _, ?_⟩
    · omega
    · simp only [answer]
      rw [Scan.run_ask, Slice.answer_upTo]
      exact ⟨rfl, congrArg w.charge hlen, rfl⟩
  | position => exact .inl ⟨0, Nat.zero_le _, Nat.zero_le _, rfl, rfl, rfl⟩
  | remaining h => exact .inl ⟨0, Nat.zero_le _, Nat.zero_le _, rfl, rfl, rfl⟩

theorem enough_answer (w : Window) (q : Request true) (s : Slice) (h : w.left ≤ s.rest.length) :
    (w.answer q : Scan false _).Enough s := by
  cases q with
  | exactly n | skip n =>
    simp only [answer]
    by_cases hw : w.left < n
    · rw [if_pos hw]
      trivial
    · rw [if_neg hw]
      exact ⟨Nat.le_trans (Nat.le_of_not_lt hw) h, trivial⟩
  | upTo n => exact ⟨Nat.le_trans (Nat.min_le_left _ _) h, by rw [Slice.answer_upTo]; trivial⟩
  | position => exact ⟨Nat.zero_le _, trivial⟩
  | remaining _ => trivial

theorem quiet_answer (w : Window) (q : Request true) : (w.answer q : Scan false _).Quiet := by
  cases q with
  | exactly n | skip n =>
    simp only [answer]
    split
    · exact .done _
    · exact .ask _ _ fun _ => .done _
  | upTo n =>
    refine .ask _ _ fun r => ?_
    cases r <;> exact .done _
  | position => exact .ask _ _ fun _ => .done _
  | remaining _ => exact .done _

theorem quiet_within {p : Scan true α} (hp : p.Quiet) (w : Window) :
    (p.within w : Scan false _).Quiet := by
  induction hp generalizing w with
  | done a => exact .done _
  | note m rest hm _ ih => exact .note m _ hm (ih w)
  | ask q next _ ih => exact (w.quiet_answer q).bind fun r => ih r.1 r.2

/-- A run takes no more octets than it uses up of the window. -/
theorem pos_within_le (p : Scan true α) (w : Window) (s : Slice) :
    let r := (p.within w : Scan false _).run s
    r.2.pos + r.1.2.left ≤ s.pos + w.left := by
  induction p generalizing w s with
  | done a => exact Nat.le_refl _
  | note m rest ih => exact ih w s
  | ask q next ih =>
    rw [Scan.within, Scan.run_bind]
    refine Nat.le_trans (ih _ _ _) ?_
    obtain ⟨n, hw, -, -, hc, ha⟩ | ⟨-, hc, ha⟩ | ⟨n, -, -, -, hc, ha, -⟩ := w.answer_cases q s
    · rw [hc, ha, left_charge]
      simp only [Slice.advance]
      omega
    · rw [hc, ha]
      exact Nat.le_refl _
    · rw [hc, ha, left_charge]
      omega

/-- In a window no larger than what is left a run finds all it asks for, and takes just the octets
that it uses up of the window. -/
theorem enough_within (p : Scan true α) {w : Window} {s : Slice} (h : w.left ≤ s.rest.length) :
    let r := (p.within w : Scan false _).run s
    (p.within w : Scan false _).Enough s ∧ r.1.2.left ≤ r.2.rest.length ∧
      r.2.pos + r.1.2.left = s.pos + w.left := by
  induction p generalizing w s with
  | done a => exact ⟨trivial, h, rfl⟩
  | note m rest ih => exact ih h
  | ask q next ih =>
    rw [Scan.within, Scan.enough_bind, Scan.run_bind]
    obtain ⟨n, hw, hs, -, hc, ha⟩ | ⟨-, hc, ha⟩ | ⟨n, hw, hs, -⟩ := w.answer_cases q s
    · rw [hc, ha]
      have hstep : (w.charge n).left ≤ (s.advance n).rest.length ∧
          (s.advance n).pos + (w.charge n).left = s.pos + w.left := by
        rw [left_charge]
        simp only [Slice.advance, List.length_drop]
        omega
      obtain ⟨henough, hleft, hpos⟩ := ih ((w.answer q : Scan false _).run s).1.1 hstep.1
      exact ⟨⟨w.enough_answer q s h, henough⟩, hleft, hpos.trans hstep.2⟩
    · rw [hc, ha]
      obtain ⟨henough, hleft, hpos⟩ := ih ((w.answer q : Scan false _).run s).1.1
        (show w.refuse.left ≤ s.rest.length from h)
      exact ⟨⟨w.enough_answer q s h, henough⟩, hleft, hpos⟩
    · omega

end Window

namespace Scan
variable {bounded : Bool} {α β : Type} {err : α → Option StreamError} {err' : β → Option StreamError}

/-- The scan ends with the error, or without one behind a remark on it. -/
def Reports (err : α → Option StreamError) (e : StreamError) (t : Scan bounded α) : Prop :=
  (∃ a, t = done a ∧ err a = some e) ∨ ∃ a, t = note (.descriptorsCut e) (done a) ∧ err a = none

/-- The scan reports the first request that fails and has no errors of its own. -/
def Candid (err : α → Option StreamError) (p : Scan bounded α) : Prop :=
  p.Stops (Reports err) (err · = none)

theorem Reports.within {e : StreamError} {t : Scan true α} (ht : Reports err e t) (w : Window)
    (s : Slice) :
    let r := (t.within w : Scan false _).run s
    r.1.2 = w ∧ r.2 = s ∧ (err r.1.1 = some e ∧ ¬(t.within w : Scan false _).Cut s ∨
      err r.1.1 = none ∧ ((t.within w : Scan false _).Cut s ↔ e = .underrun)) := by
  rcases ht with ⟨a, rfl, ha⟩ | ⟨a, rfl, ha⟩
  · exact ⟨rfl, rfl, .inl ⟨ha, not_cut_done _ s⟩⟩
  · refine ⟨rfl, rfl, .inr ⟨ha, ?_⟩⟩
    simp only [Scan.within, Cut, notices, List.mem_singleton]
    exact ⟨fun h => (Notice.descriptorsCut.inj h).symm, fun h => by rw [h]⟩

/-- In a window no larger than what is left nothing runs out. -/
theorem Candid.within_enough {p : Scan true α} (hp : p.Candid err) {w : Window} {s : Slice}
    (h : w.left ≤ s.rest.length) :
    ¬(p.within w : Scan false _).Cut s ∧
      err ((p.within w : Scan false _).run s).1.1 ≠ some .underrun := by
  unfold Candid at hp
  induction hp generalizing w s with
  | done a ha =>
    refine ⟨not_cut_done _ s, ?_⟩
    change err a ≠ _
    rw [ha]
    simp
  | note m rest hm _ ih =>
    rw [Scan.within, cut_note hm]
    exact ih h
  | ask q next hfail _ ih =>
    have hquiet := (w.quiet_answer q).not_cut s
    rw [Scan.within, cut_bind, run_bind]
    obtain ⟨n, hw, hs, hr, hc, ha⟩ | ⟨hr, hc, ha⟩ | ⟨n, hw, hs, -⟩ := w.answer_cases q s
    · rw [hc, ha]
      have hleft : (w.charge n).left ≤ (s.advance n).rest.length := by
        rw [Window.left_charge]
        simp only [Slice.advance, List.length_drop]
        omega
      obtain ⟨hcut, herr⟩ := ih _ hr hleft
      exact ⟨not_or.mpr ⟨hquiet, hcut⟩, herr⟩
    · rw [hc, ha]
      obtain ⟨-, -, ⟨herr, hcut⟩ | ⟨herr, hcut⟩⟩ := (hfail _ _ hr).within w.refuse s
      · refine ⟨not_or.mpr ⟨hquiet, hcut⟩, ?_⟩
        rw [herr]
        simp
      · refine ⟨not_or.mpr ⟨hquiet, fun hc => absurd (hcut.mp hc) (by simp)⟩, ?_⟩
        rw [herr]
        simp
    · omega

/-- In a window larger than what is left the shortage is reported, or some of it stays. -/
theorem Candid.within_short {p : Scan true α} (hp : p.Candid err) {w : Window} {s : Slice}
    (h : s.rest.length < w.left) (hw : w.refused = false) :
    let r := (p.within w : Scan false _).run s
    (¬(p.within w : Scan false _).Enough s ∧
      ((p.within w : Scan false _).Cut s ∨ err r.1.1 = some .underrun ∧ r.1.2.refused = false)) ∨
    (r.2.rest.length < r.1.2.left ∧ (err r.1.1 = none ∨ r.1.2.refused = true)) := by
  unfold Candid at hp
  induction hp generalizing w s with
  | done a ha => exact .inr ⟨h, .inl ha⟩
  | note m rest hm _ ih =>
    rw [Scan.within, cut_note hm]
    exact ih h hw
  | ask q next hfail _ ih =>
    rw [Scan.within, cut_bind, run_bind, enough_bind]
    obtain ⟨n, hn, hs, hr, hc, ha⟩ | ⟨hr, hc, ha⟩ | ⟨n, -, hs, hr, hc, ha, hshort⟩ :=
      w.answer_cases q s
    · rw [hc, ha]
      have hleft : (s.advance n).rest.length < (w.charge n).left := by
        rw [Window.left_charge]
        simp only [Slice.advance, List.length_drop]
        omega
      rcases ih _ hr hleft hw with ⟨henough, hcut | hend⟩ | hmore
      · exact .inl ⟨fun h => henough h.2, .inl (.inr hcut)⟩
      · exact .inl ⟨fun h => henough h.2, .inr hend⟩
      · exact .inr hmore
    · rw [hc, ha]
      obtain ⟨hwindow, hslice, -⟩ := (hfail _ _ hr).within w.refuse s
      refine .inr ?_
      rw [hwindow, hslice]
      exact ⟨h, .inr rfl⟩
    · rw [hc, ha]
      obtain ⟨hwindow, -, ⟨herr, -⟩ | ⟨-, hcut⟩⟩ := (hfail _ _ hr).within (w.charge n) s
      · refine .inl ⟨fun h => hshort h.1, .inr ⟨herr, ?_⟩⟩
        rw [hwindow]
        exact hw
      · exact .inl ⟨fun h => hshort h.1, .inl (.inr (hcut.mpr rfl))⟩

inductive Leaves (err' : β → Option StreamError) (w : Window) : Scan false β → Prop
  | skip (next : Except StreamError Unit → Scan false β)
      (hok : ∃ b, next (.ok ()) = done b ∧ err' b = none)
      (herr : ∀ e, ∃ b, next (.error e) = done b ∧ err' b = some e) :
      Leaves err' w (.ask (.skip w.left) next)
  | note (m : Notice) (rest : Scan false β) (hm : m ≠ .descriptorsCut .underrun)
      (hrest : Leaves err' w rest) : Leaves err' w (.note m rest)

theorem Leaves.quiet {w : Window} {t : Scan false β} (ht : t.Leaves err' w) : t.Quiet := by
  induction ht with
  | skip next hok herr =>
    refine .ask _ _ fun r => ?_
    rcases r with e | u
    · obtain ⟨b, hb, -⟩ := herr e
      rw [hb]
      exact .done b
    · obtain ⟨b, hb, -⟩ := hok
      rw [hb]
      exact .done b
  | note m rest hm _ ih => exact .note m rest hm ih

theorem Leaves.run_enough {w : Window} {t : Scan false β} (ht : t.Leaves err' w) {s : Slice}
    (h : w.left ≤ s.rest.length) :
    t.Enough s ∧ err' (t.run s).1 = none ∧ (t.run s).2.pos = s.pos + w.left := by
  induction ht with
  | skip next hok _ =>
    obtain ⟨b, hb, hnone⟩ := hok
    have hanswer := @Slice.answer_skip false w.left s
    rw [if_pos h] at hanswer
    rw [Enough, run_ask, hanswer, hb]
    exact ⟨⟨h, trivial⟩, hnone, rfl⟩
  | note m rest hm _ ih => exact ih

theorem Leaves.run_short {w : Window} {t : Scan false β} (ht : t.Leaves err' w) {s : Slice}
    (h : s.rest.length < w.left) :
    ¬t.Enough s ∧ err' (t.run s).1 = some .underrun ∧ (t.run s).2 = s := by
  induction ht with
  | skip next _ herr =>
    obtain ⟨b, hb, hsome⟩ := herr .underrun
    have hanswer := @Slice.answer_skip false w.left s
    rw [if_neg (Nat.not_le_of_lt h)] at hanswer
    rw [run_ask, hanswer, hb]
    exact ⟨fun henough => Nat.not_le_of_lt h henough.1, hsome, rfl⟩
  | note m rest hm _ ih => exact ih

/-- What is done behind a window: an error that the window did not cause goes on, and in every
other case the rest of the window is passed over. -/
structure Closes (err : α → Option StreamError) (err' : β → Option StreamError)
    (k : α × Window → Scan false β) : Prop where
  stop : ∀ a w e, err a = some e → w.refused = false → ∃ b, k (a, w) = done b ∧ err' b = some e
  leave : ∀ a w, err a = none ∨ w.refused = true → (k (a, w)).Leaves err' w

theorem Closes.cases {k : α × Window → Scan false β} (hk : Closes err err' k) (r : α × Window) :
    (∃ e b, err r.1 = some e ∧ k r = done b ∧ err' b = some e) ∨ (k r).Leaves err' r.2 := by
  obtain ⟨a, w⟩ := r
  rcases he : err a with _ | e
  · exact .inr (hk.leave a w (.inl he))
  · rcases hw : w.refused with _ | _
    · obtain ⟨b, hb, herr⟩ := hk.stop a w e he hw
      exact .inl ⟨e, b, rfl, hb, herr⟩
    · exact .inr (hk.leave a w (.inr hw))

theorem Closes.quiet {k : α × Window → Scan false β} (hk : Closes err err' k) (r : α × Window) :
    (k r).Quiet := by
  rcases hk.cases r with ⟨e, b, -, hb, -⟩ | hleave
  · rw [hb]
    exact .done b
  · exact hleave.quiet

section Enclosed
variable {p : Scan true α} {k : α × Window → Scan false β} (hk : Closes err err' k) {n : Nat}
  {s : Slice}
include hk

/-- Behind an enclosed reader the stream stands inside what was enclosed or at its end. -/
theorem Closes.pos_le : ((enclose n p k).run s).2.pos ≤ s.pos + n := by
  have hpos : _ ≤ s.pos + n := Window.pos_within_le p (.ofSize n) s
  rw [enclose, run_bind]
  rcases hk.cases ((p.within (.ofSize n) : Scan false _).run s).1 with ⟨e, b, -, hb, -⟩ | hleave
  · rw [hb]
    exact Nat.le_of_add_right_le hpos
  · rcases Nat.lt_or_ge ((p.within (.ofSize n) : Scan false _).run s).2.rest.length
      ((p.within (.ofSize n) : Scan false _).run s).1.2.left with hshort | henough
    · rw [(hleave.run_short hshort).2.2]
      exact Nat.le_of_add_right_le hpos
    · rw [(hleave.run_enough henough).2.2]
      exact hpos

/-- An enclosed reader with all its octets ahead finds what it asks for. Without an error it ends
behind them. -/
theorem Closes.run_enough (hp : p.Candid err) (h : n ≤ s.rest.length) :
    (enclose n p k).Enough s ∧ ¬(enclose n p k).Cut s ∧
      err' ((enclose n p k).run s).1 ≠ some .underrun ∧
      (err' ((enclose n p k).run s).1 = none → ((enclose n p k).run s).2.pos = s.pos + n) := by
  have hw : (Window.ofSize n).left ≤ s.rest.length := h
  obtain ⟨henough, hleft, hpos⟩ := Window.enough_within p hw
  obtain ⟨hcut, herr⟩ := hp.within_enough hw
  rw [enclose, enough_bind, cut_bind, run_bind]
  rcases hk.cases ((p.within (.ofSize n) : Scan false _).run s).1 with ⟨e, b, he, hb, hb'⟩ | hleave
  · rw [hb]
    refine ⟨⟨henough, trivial⟩, not_or.mpr ⟨hcut, not_cut_done b _⟩, ?_, ?_⟩
    · rw [run_done, hb', ← he]
      exact herr
    · intro hnone
      rw [run_done, hb'] at hnone
      cases hnone
  · obtain ⟨hrest, hnone, hend⟩ := hleave.run_enough hleft
    refine ⟨⟨henough, hrest⟩, not_or.mpr ⟨hcut, hleave.quiet.not_cut _⟩, ?_,
      fun _ => hend.trans hpos⟩
    rw [hnone]
    simp

/-- An enclosed reader with too few octets ahead admits it. -/
theorem Closes.run_short (hp : p.Candid err) (h : s.rest.length < n) :
    ¬(enclose n p k).Enough s ∧
      (err' ((enclose n p k).run s).1 = some .underrun ∨ (enclose n p k).Cut s) := by
  have hw : s.rest.length < (Window.ofSize n).left := h
  rw [enclose, enough_bind, cut_bind, run_bind]
  rcases hp.within_short hw rfl with ⟨hfew, hcut | ⟨herr, hrefused⟩⟩ | ⟨hmore, hgoes⟩
  · exact ⟨fun h => hfew h.1, .inr (.inl hcut)⟩
  · obtain ⟨b, hb, hb'⟩ := hk.stop _ _ _ herr hrefused
    refine ⟨fun h => hfew h.1, .inl ?_⟩
    rw [hb]
    exact hb'
  · obtain ⟨hfew, herr, -⟩ := (hk.leave _ _ hgoes).run_short hmore
    exact ⟨fun h => hfew h.2, .inl herr⟩

/-- An enclosed reader admits a shortage just if there is one. -/
theorem Closes.enough_iff (hp : p.Candid err) :
    (enclose n p k).Enough s ↔
      err' ((enclose n p k).run s).1 ≠ some .underrun ∧ ¬(enclose n p k).Cut s := by
  rcases Nat.lt_or_ge s.rest.length n with hshort | henough
  · obtain ⟨hfew, herr | hcut⟩ := hk.run_short hp hshort
    · exact ⟨fun h => absurd h hfew, fun h => absurd herr h.1⟩
    · exact ⟨fun h => absurd h hfew, fun h => absurd hcut h.2⟩
  · obtain ⟨hall, hcut, herr, -⟩ := hk.run_enough hp henough
    exact ⟨fun _ => ⟨herr, hcut⟩, fun _ => hall⟩

/-- An enclosed reader without an error or a cut takes all of what was enclosed. -/
theorem Closes.pos_eq (hp : p.Candid err) (herr : err' ((enclose n p k).run s).1 = none)
    (hcut : ¬(enclose n p k).Cut s) : ((enclose n p k).run s).2.pos = s.pos + n := by
  rcases Nat.lt_or_ge s.rest.length n with hshort | henough
  · rcases (hk.run_short hp hshort).2 with herr' | hcut'
    · rw [herr] at herr'
      cases herr'
    · exact absurd hcut' hcut
  · exact (hk.run_enough hp henough).2.2.2 herr

end Enclosed

end Scan

section Payloads
variable {α : Type}

theorem Read.Watchful.candid {bounded : Bool} {p : Read bounded α} (hp : p.Watchful) :
    p.run.Candid StreamError.of? := by
  refine Scan.Stops.mono hp ?_ ?_
  · rintro e t (rfl | ⟨a, rfl⟩)
    · exact .inl ⟨_, rfl, rfl⟩
    · exact .inr ⟨_, rfl, rfl⟩
  · rintro r ⟨a, rfl⟩
    rfl

theorem Collect.Strict.candid {bounded : Bool} {p : Collect StreamError bounded α} (hp : p.Strict)
    (c : Collected) : (p.runFrom c).Candid fun r => StreamError.of? r.1 := by
  refine (hp c).mono ?_ ?_
  · rintro e t ⟨d, rfl⟩
    exact .inl ⟨_, rfl, rfl⟩
  · rintro ⟨r, d⟩ ⟨a, rfl⟩
    rfl

theorem Read.leaves_skip (w : Window) (a : α) :
    ((Read.skip w.left >>= fun _ => pure a : Read false α).run).Leaves StreamError.of? w :=
  .skip _ ⟨.ok a, rfl, rfl⟩ fun e => ⟨.error e, rfl, rfl⟩

theorem Leaf.closes (kind : Kind) :
    Scan.Closes StreamError.of? StreamError.of? (Leaf.close (α := α) kind) where
  stop := by
    rintro (e' | a) w e he hw
    · obtain rfl : e' = e := Option.some.inj he
      refine ⟨.error e', ?_, rfl⟩
      simp only [Leaf.close, hw]
      rfl
    · cases he
  leave := by
    rintro (e | a) w h
    · rcases h with h | h
      · cases h
      · simp only [Leaf.close, h, if_true]
        exact .note _ _ (by simp) (Read.leaves_skip w none)
    · exact Read.leaves_skip w (some a)

theorem TagList.closes (kind : Kind) :
    Scan.Closes (fun r => StreamError.of? r.1) (fun r => StreamError.of? r.1)
      (TagList.close kind) := by
  have hleaves (w : Window) (d : Collected) : ((Collect.read (Read.skip w.left) :
      Collect StreamError false Unit).runFrom d).Leaves (fun r => StreamError.of? r.1) w :=
    .skip _ ⟨(.ok (), d), rfl, rfl⟩ fun e => ⟨(.error e, d), rfl, rfl⟩
  refine ⟨?_, ?_⟩
  · rintro ⟨e' | a, d⟩ w e he hw
    · obtain rfl : e' = e := Option.some.inj he
      refine ⟨(.error e', d), ?_, rfl⟩
      simp only [TagList.close, hw]
      rfl
    · cases he
  · rintro ⟨e | a, d⟩ w h
    · rcases h with h | h
      · cases h
      · simp only [TagList.close, h, if_true]
        exact .note _ _ (by simp) (hleaves w d)
    · exact hleaves w d

end Payloads

namespace Collect
variable {ε α β : Type} {p : Collect ε false α} {f : α → Collect ε false β} {c d : Collected}
  {s t : Slice} {a : α} {e : ε}

def Cut (p : Collect ε false α) (c : Collected) (s : Slice) : Prop := (p.runFrom c).Cut s

def Enough (p : Collect ε false α) (c : Collected) (s : Slice) : Prop := (p.runFrom c).Enough s

theorem cut_bind_ok (h : p.exec c s = ((.ok a, d), t)) :
    (p >>= f).Cut c s ↔ p.Cut c s ∨ (f a).Cut d t := by
  rw [exec] at h
  rw [Cut, runFrom_bind, Scan.cut_bind, h]
  rfl

theorem cut_bind_error (h : p.exec c s = ((.error e, d), t)) :
    (p >>= f).Cut c s ↔ p.Cut c s := by
  rw [exec] at h
  rw [Cut, runFrom_bind, Scan.cut_bind, h]
  exact or_iff_left (Scan.not_cut_done _ t)

theorem enough_bind_ok (h : p.exec c s = ((.ok a, d), t)) :
    (p >>= f).Enough c s ↔ p.Enough c s ∧ (f a).Enough d t := by
  rw [exec] at h
  rw [Enough, runFrom_bind, Scan.enough_bind, h]
  rfl

theorem enough_bind_error (h : p.exec c s = ((.error e, d), t)) :
    (p >>= f).Enough c s ↔ p.Enough c s := by
  rw [exec] at h
  rw [Enough, runFrom_bind, Scan.enough_bind, h]
  exact and_iff_left trivial

def Quiet (p : Collect ε false α) : Prop := ∀ c, (p.runFrom c).Quiet

theorem Quiet.bind (hp : p.Quiet) (hf : ∀ a, (f a).Quiet) : (p >>= f).Quiet := by
  intro c
  rw [runFrom_bind]
  refine (hp c).bind ?_
  rintro ⟨e | a, d⟩
  · exact .done _
  · exact hf a d

theorem quiet_read {p : Read false α} (hp : p.Strict) : (read p).Quiet := by
  intro c
  rw [runFrom_read]
  refine (Scan.Stops.quiet hp ?_).bind fun r => .done (r, c)
  rintro e t rfl
  exact .done _

theorem cut_read {p : Read false α} : (read p).Cut c s ↔ p.run.Cut s := by
  rw [Cut, runFrom_read, Scan.cut_bind]
  exact or_iff_left (Scan.not_cut_done _ _)

theorem enough_read {p : Read false α} : (read p).Enough c s ↔ p.run.Enough s := by
  rw [Enough, runFrom_read, Scan.enough_bind]
  exact and_iff_left trivial

end Collect

namespace Walk
variable {α : Type} {p : Collect StreamError false α} {c : Collected} {s : Slice}

theorem cut_lift : (lift p).Cut c s ↔ p.Cut c s := by
  rw [Collect.Cut, runFrom_lift, Scan.cut_bind]
  exact or_iff_left (Scan.not_cut_done _ _)

theorem enough_lift : (lift p).Enough c s ↔ p.Enough c s := by
  rw [Collect.Enough, runFrom_lift, Scan.enough_bind]
  exact and_iff_left trivial

end Walk

end AudioAtoms
