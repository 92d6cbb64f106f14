import AudioAtoms.Proofs.Pace
import AudioAtoms.Stream.Session
import Mathlib.Data.List.Forall2

/-!
# What nested windows account for

A session opens and closes windows as it likes and works in the innermost one. Each window that is
open has an account: where the stream stood when it was opened, and how it took each operation that
came to it since, from the session itself or from the window inside it. No window ever lets the
stream move beyond its size. What a window says it has used is the distance that the stream has
moved, until an operation fails beneath it. An operation that a window refuses leaves a mark on that
window and nothing else.
-/
namespace AudioAtoms

/-- How a window takes an operation. -/
inductive Fate where
  /-- It fails, and nothing was asked of the stream beneath. -/
  | refused
  /-- It fails, and the stream beneath was asked. -/
  | failed
  | served
deriving DecidableEq, Repr

def Scan.first? {bounded : Bool} {α : Type} : Scan bounded α → Option (Request bounded)
  | done _ => none
  | ask q _ => some q
  | note _ rest => rest.first?

/-- The fates of an operation that the innermost window answers by a scan of the stream beneath. The
fates of the request that it makes there follow. -/
def Fate.list {α : Type} (failed : Bool) (p : Scan false α) (beneath : Request false → List Fate) :
    List Fate :=
  match p.first? with
  | none => [if failed then refused else served]
  | some q => (if failed then Fate.failed else served) :: beneath q

namespace Nested
variable {σ : Type}

def windows : {depth : Nat} → Nested σ depth → List Window
  | 0, _ => []
  | _ + 1, s => s.window :: windows s.inner

variable [ByteStream false σ]

/-- How the windows take a request, the innermost one first. A request that is refused does not
reach the windows beneath. -/
def fates : {depth : Nat} → Request false → Nested σ depth → List Fate
  | 0, _, _ => []
  | depth + 1, q, s =>
    Fate.list (q.failure? (ByteStream.answer q s).1).isSome
      (s.window.answer q : Scan false (q.Answer × Window))
      fun q => fates q (s.inner : Nested σ depth)

end Nested

namespace Session
variable {σ : Type}

def windows (s : Session σ) : List Window := s.stream.windows

variable [ByteStream false σ]

def position (s : Session σ) : Nat := (s.ask .position).1

def restFates : Session σ → List Fate
  | ⟨0, _⟩ => []
  | ⟨depth + 1, s⟩ =>
    Fate.list (StreamError.of? (skipRest ⟨depth + 1, s⟩).1).isSome
      (s.window.skipRest : Scan false (Except StreamError Unit × Window))
      fun q => Nested.fates q (s.inner : Nested σ depth)

end Session

inductive Operation where
  | ask (q : Request false)
  | skipRest
  | enter (size : Nat)
  | leave

namespace Operation
variable {σ : Type} [ByteStream false σ]

def run (s : Session σ) : Operation → Session σ
  | ask q => (s.ask q).2
  | skipRest => s.skipRest.2
  | enter size => s.enter size
  | leave => s.leave

def fates (s : Session σ) : Operation → List Fate
  | ask q => s.stream.fates q
  | skipRest => s.restFates
  | enter _ | leave => []

end Operation

/-- The account of a window that is open. -/
structure Account where
  /-- Where the stream stood when the window was opened. -/
  opened : Nat
  /-- How the window took each operation since, the last one first. -/
  fates : List Fate
deriving DecidableEq, Repr

namespace Account

def add (fate : Fate) (a : Account) : Account := { a with fates := fate :: a.fates }

def addAll : List Fate → List Account → List Account
  | fate :: fates, a :: accounts => a.add fate :: addAll fates accounts
  | _, accounts => accounts

end Account

structure Audit (σ : Type) where
  session : Session σ
  accounts : List Account

namespace Audit
variable {σ : Type}

def ofStream (s : σ) : Audit σ := ⟨.ofStream s, []⟩

variable [ByteStream false σ]

def step (a : Audit σ) (op : Operation) : Audit σ where
  session := op.run a.session
  accounts :=
    match op with
    | .enter _ => ⟨a.session.position, []⟩ :: a.accounts
    | .leave => a.accounts.tail
    | op => Account.addAll (op.fates a.session) a.accounts

def run (a : Audit σ) (script : List Operation) : Audit σ := script.foldl step a

end Audit

/-- A window is as its account says, with the stream at the given position. -/
structure Account.Balanced (pos : Nat) (a : Account) (w : Window) : Prop where
  used_le : w.used ≤ w.size
  pos_le : pos ≤ a.opened + w.used
  pos_eq : .failed ∉ a.fates → pos = a.opened + w.used
  refused_iff : w.refused = true ↔ .refused ∈ a.fates

namespace Account.Balanced
variable {pos : Nat} {a : Account} {w : Window}

theorem opened (pos size : Nat) : Balanced pos ⟨pos, []⟩ (.ofSize size) :=
  ⟨Nat.zero_le _, Nat.le_refl _, fun _ => rfl, by simp [Window.ofSize]⟩

theorem refuse (h : Balanced pos a w) : Balanced pos (a.add .refused) w.refuse where
  used_le := h.used_le
  pos_le := h.pos_le
  pos_eq hfates := h.pos_eq fun hmem => hfates (.tail _ hmem)
  refused_iff := ⟨fun _ => .head _, fun _ => rfl⟩

/-- A request that is let through is charged by what it costs, and the stream moves on by no more
than that. -/
theorem pass (h : Balanced pos a w) {q : Request false} {r : q.Answer} {next : Nat}
    (hmoves : q.Moves r pos next) (hneed : q.need ≤ w.left) :
    Balanced next (a.add (if (q.failure? r).isSome then .failed else .served))
      (w.charge (q.cost r)) where
  used_le := by
    have hcost := hmoves.cost_le
    have hused := h.used_le
    simp only [Window.left, Window.charge] at hneed ⊢
    omega
  pos_le := by
    have hpos := h.pos_le
    have hnext := hmoves.le
    simp only [add, Window.charge]
    omega
  pos_eq hfates := by
    rcases hr : q.failure? r with _ | e
    · have hpos := h.pos_eq fun hmem => hfates (.tail _ hmem)
      have hnext := hmoves.eq hr
      simp only [add, Window.charge]
      omega
    · refine absurd ?_ hfates
      simp [add, hr]
  refused_iff := by
    have hiff := h.refused_iff
    cases q.failure? r <;> simpa [add, Window.charge] using hiff

end Account.Balanced

namespace Nested
variable {σ : Type} {depth : Nat}

def through (s : Nested σ depth) (w : Window) : Nested σ (depth + 1) :=
  (⟨s, w⟩ : Scoped (Nested σ depth))

variable [ByteStream false σ]

/-- The innermost window refuses a request, or it puts one to the stream beneath, which is no
larger, and takes over its outcome and what it costs. -/
theorem answer_cases (q : Request false) (s : Nested σ depth) (w : Window) :
    let r := ByteStream.answer q (s.through w)
    ((s.through w).fates q = [.refused] ∧ (q.failure? r.1).isSome = true ∧ q.cost r.1 ≤ q.need ∧
      r.2 = s.through w.refuse) ∨
    ∃ p : Request false, p.need ≤ w.left ∧ p.need ≤ q.need ∧
      let a := ByteStream.answer p s
      (s.through w).fates q =
          (if (p.failure? a.1).isSome then .failed else .served) :: s.fates p ∧
        q.failure? r.1 = p.failure? a.1 ∧ q.cost r.1 = p.cost a.1 ∧
        r.2 = a.2.through (w.charge (p.cost a.1)) := by
  have hanswer : ByteStream.answer q (s.through w) =
      let r := (w.answer q : Scan false (q.Answer × Window)).run s
      (r.1.1, r.2.through r.1.2) := rfl
  have hfates : (s.through w).fates q =
      Fate.list (q.failure? (ByteStream.answer q (s.through w)).1).isSome
        (w.answer q : Scan false (q.Answer × Window)) fun q => s.fates q := rfl
  rw [hfates, hanswer]
  cases q with
  | exactly n | skip n =>
    simp only [Window.answer]
    by_cases hw : w.left < n
    · rw [if_pos hw]
      exact .inl ⟨rfl, rfl, Nat.le_refl n, rfl⟩
    · rw [if_neg hw]
      refine .inr ⟨_, ?_, ?_, rfl, rfl, rfl, rfl⟩
      · exact Nat.le_of_not_lt hw
      · exact Nat.le_refl n
  | upTo n =>
    rw [w.run_upTo n s]
    exact .inr ⟨_, Nat.min_le_left _ _, Nat.min_le_right _ _, rfl, rfl, rfl, rfl⟩
  | position => exact .inr ⟨.position, Nat.zero_le _, Nat.le_refl 0, rfl, rfl, rfl, rfl⟩
  | remaining h => cases h

theorem position_eq (P : Pace σ) : {depth : Nat} → (s : Nested σ depth) → P.Good s.base →
    (ByteStream.answer (.position : Request false) s).1 = P.pos s.base
  | 0, s, hs => P.position s hs
  | _ + 1, s, hs => position_eq P s.inner hs

/-- A request moves the stream behind the windows by no more than it costs, and keeps the accounts
balanced. -/
theorem balanced_answer (P : Pace σ) (q : Request false) (s : Nested σ depth)
    (hs : P.Good s.base) {accounts : List Account}
    (h : List.Forall₂ (Account.Balanced (P.pos s.base)) accounts s.windows) :
    let r := ByteStream.answer q s
    P.Good r.2.base ∧ q.Moves r.1 (P.pos s.base) (P.pos r.2.base) ∧
      List.Forall₂ (Account.Balanced (P.pos r.2.base)) (Account.addAll (s.fates q) accounts)
        r.2.windows := by
  induction depth generalizing q accounts with
  | zero =>
    cases h
    exact ⟨P.good_answer q s hs, P.moves q s hs, .nil⟩
  | succ depth ih =>
    obtain ⟨s, w⟩ := s
    change P.Good s.base at hs
    change List.Forall₂ (Account.Balanced (P.pos s.base)) accounts (w :: s.windows) at h
    obtain ⟨a, accounts, hw, hrest, rfl⟩ := List.forall₂_cons_right_iff.mp h
    intro r
    obtain ⟨hfates, hfails, hcost, hanswer⟩ | ⟨p, hleft, hneed, hfates, hfails, hcost, hanswer⟩ :=
      answer_cases q s w
    · have hr : r.2 = s.through w.refuse := hanswer
      have hmoves : q.Moves r.1 (P.pos s.base) (P.pos s.base) :=
        ⟨hcost, Nat.le_add_right _ _, fun hok => by
          rw [show q.failure? (ByteStream.answer q (s.through w)).1 = none from hok] at hfails
          cases hfails⟩
      rw [hr]
      refine ⟨hs, hmoves, ?_⟩
      change List.Forall₂ _ (Account.addAll ((s.through w).fates q) _) _
      rw [hfates]
      exact .cons hw.refuse hrest
    · obtain ⟨hgood, hmoves, hbalanced⟩ := ih p s hs hrest
      have hr : r.2 = (ByteStream.answer p s).2.through
        (w.charge (p.cost (ByteStream.answer p s).1)) := hanswer
      rw [hr]
      refine ⟨hgood, ⟨?_, ?_, fun hok => ?_⟩, ?_⟩
      · exact hcost ▸ Nat.le_trans hmoves.cost_le hneed
      · exact hcost ▸ hmoves.le
      · exact hcost ▸ hmoves.eq (hfails.symm.trans hok)
      · change List.Forall₂ _ (Account.addAll ((s.through w).fates q) _) _
        rw [hfates]
        exact .cons (hw.pass hmoves hleft) hbalanced

/-- A window that refuses a request is marked. Nothing else changes, in the window or beneath it. -/
theorem windows_refused {q : Request false} {s : Nested σ depth} {k : Nat} {w : Window}
    (hk : (s.fates q)[k]? = some .refused) (hw : s.windows[k]? = some w) :
    (ByteStream.answer q s).2.windows.drop k = w.refuse :: s.windows.drop (k + 1) ∧
      (ByteStream.answer q s).2.base = s.base := by
  induction depth generalizing q k with
  | zero => cases hw
  | succ depth ih =>
    obtain ⟨s, v⟩ := s
    change ((s.through v).fates q)[k]? = _ at hk
    change (v :: s.windows)[k]? = _ at hw
    change (ByteStream.answer q (s.through v)).2.windows.drop k =
        w.refuse :: (v :: s.windows).drop (k + 1) ∧
      (ByteStream.answer q (s.through v)).2.base = s.base
    obtain ⟨hfates, -, -, hanswer⟩ | ⟨p, -, -, hfates, -, -, hanswer⟩ := answer_cases q s v
    · rw [hfates] at hk
      rw [hanswer]
      cases k with
      | zero =>
        cases hw
        exact ⟨rfl, rfl⟩
      | succ k => cases hk
    · rw [hfates] at hk
      rw [hanswer]
      cases k with
      | zero =>
        have hfate := Option.some.inj hk
        split at hfate <;> cases hfate
      | succ k => exact ih hk hw

end Nested

namespace Session
variable {σ : Type} [ByteStream false σ]

/-- A move over the rest of a window is a request to the stream beneath, which is charged. -/
theorem skipRest_eq {depth : Nat} (s : Nested σ depth) {w : Window} (h : w.used ≤ w.size) :
    let r := ByteStream.answer (.skip w.left : Request false) s
    (skipRest ⟨depth + 1, s.through w⟩).2 = ⟨depth + 1, r.2.through (w.charge w.left)⟩ ∧
      restFates ⟨depth + 1, s.through w⟩ =
        (if (StreamError.of? r.1).isSome then .failed else .served) :: s.fates (.skip w.left) := by
  have hclose : w.close = w.charge w.left := by
    rw [Window.close, Window.charge, Window.left, Nat.add_sub_cancel' h]
  intro r
  rw [← hclose]
  exact ⟨rfl, rfl⟩

end Session

namespace Audit
variable {σ : Type} [ByteStream false σ]

structure Balanced (P : Pace σ) (a : Audit σ) : Prop where
  good : P.Good a.session.base
  accounts : List.Forall₂ (Account.Balanced (P.pos a.session.base)) a.accounts a.session.windows

theorem balanced_ofStream {P : Pace σ} {s : σ} (hs : P.Good s) : (ofStream s).Balanced P :=
  ⟨hs, .nil⟩

/-- Every operation keeps the accounts balanced. -/
theorem Balanced.step {P : Pace σ} {a : Audit σ} (h : a.Balanced P) (op : Operation) :
    (a.step op).Balanced P := by
  obtain ⟨⟨depth, s⟩, accounts⟩ := a
  obtain ⟨hgood, haccounts⟩ := h
  cases op with
  | ask q =>
    obtain ⟨hgood', -, haccounts'⟩ := Nested.balanced_answer P q s hgood haccounts
    exact ⟨hgood', haccounts'⟩
  | skipRest =>
    cases depth with
    | zero =>
      cases haccounts
      exact ⟨hgood, .nil⟩
    | succ depth =>
      obtain ⟨s, w⟩ := s
      change P.Good s.base at hgood
      change List.Forall₂ (Account.Balanced (P.pos s.base)) accounts (w :: s.windows) at haccounts
      obtain ⟨a, accounts, hw, hrest, rfl⟩ := List.forall₂_cons_right_iff.mp haccounts
      obtain ⟨hskip, hfates⟩ := Session.skipRest_eq s hw.used_le
      obtain ⟨hgood', hmoves, hrest'⟩ :=
        Nested.balanced_answer P (.skip w.left) s hgood hrest
      have hstep : Audit.step ⟨⟨depth + 1, s.through w⟩, a :: accounts⟩ .skipRest =
          ⟨(Session.skipRest ⟨depth + 1, s.through w⟩).2,
            Account.addAll (Session.restFates ⟨depth + 1, s.through w⟩) (a :: accounts)⟩ := rfl
      change (Audit.step ⟨⟨depth + 1, s.through w⟩, a :: accounts⟩ .skipRest).Balanced P
      rw [hstep, hskip, hfates]
      exact ⟨hgood', .cons (hw.pass hmoves (Nat.le_refl _)) hrest'⟩
  | enter size =>
    have hpos : Session.position ⟨depth, s⟩ = P.pos s.base := s.position_eq P hgood
    refine ⟨hgood, .cons ?_ haccounts⟩
    rw [hpos]
    exact .opened _ size
  | leave =>
    cases depth with
    | zero =>
      cases haccounts
      exact ⟨hgood, .nil⟩
    | succ depth =>
      obtain ⟨s, w⟩ := s
      change List.Forall₂ (Account.Balanced (P.pos s.base)) accounts (w :: s.windows) at haccounts
      obtain ⟨a, accounts, -, hrest, rfl⟩ := List.forall₂_cons_right_iff.mp haccounts
      exact ⟨hgood, hrest⟩

theorem Balanced.run {P : Pace σ} {a : Audit σ} (h : a.Balanced P) (script : List Operation) :
    (a.run script).Balanced P := by
  induction script generalizing a with
  | nil => exact h
  | cons op script ih => exact ih (h.step op)

end Audit

/-- A window that refuses an operation is marked. Nothing else changes, in the window or beneath
it. -/
theorem Operation.windows_refused {σ : Type} [ByteStream false σ] {s : Session σ}
    (op : Operation) {k : Nat} {w : Window} (hk : (op.fates s)[k]? = some .refused)
    (hw : s.windows[k]? = some w) :
    (op.run s).windows.drop k = w.refuse :: s.windows.drop (k + 1) ∧ (op.run s).base = s.base := by
  obtain ⟨depth, s⟩ := s
  cases op with
  | ask q => exact Nested.windows_refused hk hw
  | skipRest =>
    cases depth with
    | zero => cases hw
    | succ depth =>
      cases k with
      | zero =>
        have hfate := Option.some.inj hk
        split at hfate <;> cases hfate
      | succ k => exact Nested.windows_refused (s := s.inner) hk hw
  | enter size => cases hk
  | leave => cases hk

structure Audit.Sound {σ : Type} [ByteStream false σ] (a : Audit σ) : Prop where
  accounts : List.Forall₂ (fun account w =>
    w.used ≤ w.size ∧ a.session.position ≤ account.opened + w.size ∧
      (.failed ∉ account.fates → w.used = a.session.position - account.opened ∧
        account.opened ≤ a.session.position) ∧
      (w.refused = true ↔ .refused ∈ account.fates)) a.accounts a.session.windows
  refused : ∀ (op : Operation) (k : Nat) (w : Window),
    (op.fates a.session)[k]? = some .refused → a.session.windows[k]? = some w →
    (op.run a.session).windows.drop k = w.refuse :: a.session.windows.drop (k + 1) ∧
      (op.run a.session).base = a.session.base

theorem Audit.Balanced.sound {σ : Type} [ByteStream false σ] {P : Pace σ} {a : Audit σ}
    (h : a.Balanced P) : a.Sound := by
  refine ⟨?_, fun op k w => op.windows_refused⟩
  have hpos : a.session.position = P.pos a.session.base := a.session.stream.position_eq P h.good
  rw [hpos]
  refine h.accounts.imp fun account w hw => ⟨hw.used_le, ?_, fun hfates => ?_, hw.refused_iff⟩
  · exact Nat.le_trans hw.pos_le (Nat.add_le_add_left hw.used_le _)
  · have hpos := hw.pos_eq hfates
    omega

/-- Windows confine and account, however they are nested and whatever is asked of them: on octets in
memory, and on a buffered source of which no read fails. -/
theorem Audit.sound_run (script : List Operation) :
    (∀ content : Bytes, ((ofStream (Slice.ofBytes content)).run script).Sound) ∧
      ∀ (source : Source) (capacity : Nat) (h : 0 < capacity), source.schedule.Unfailing →
        ((ofStream (Buffered.ofSource source capacity h)).run script).Sound := by
  refine ⟨fun content => ?_, fun source capacity h hsource => ?_⟩
  · have hstart := balanced_ofStream (P := Slice.pace content) (Slice.restOf_ofBytes content)
    exact (hstart.run script).sound
  · have hstart := balanced_ofStream (P := Buffered.pace) (Buffered.aligned_ofSource hsource h)
    exact (hstart.run script).sound

/-- A window of nine octets in one of five, on a source that gives two octets at a time and is
interrupted. The inner window refuses a read, the outer one a skip that the inner one lets through:
from then on the inner one has used more than the stream has moved. -/
theorem Audit.sound_run_nested :
    let schedule := Schedule.periodic 3 (by decide) (some 2) none
    let source := Source.ofContent #[10, 11, 12, 13, 14, 15, 16, 17] 2 schedule
    let script : List Operation :=
      [.enter 5, .ask (.exactly 1), .enter 9, .ask (.exactly 2), .ask (.exactly 8), .ask (.skip 6),
        .ask (.upTo 9)]
    let a := (ofStream (Buffered.ofSource source 3 (by decide))).run script
    a.Sound ∧ a.session.position = 6 ∧ a.session.windows = [⟨9, 9, true⟩, ⟨5, 4, true⟩] ∧
      a.accounts = [⟨3, [.served, .failed, .refused, .served]⟩,
        ⟨2, [.served, .refused, .served, .served]⟩] := by
  intro schedule source script a
  have hsource : source.schedule.Unfailing :=
    (Schedule.reliable_periodic (by decide) (by decide)).unfailing
  have hrun : (a.session.position, a.session.windows, a.accounts) =
      (6, [⟨9, 9, true⟩, ⟨5, 4, true⟩], [⟨3, [.served, .failed, .refused, .served]⟩,
        ⟨2, [.served, .refused, .served, .served]⟩]) := by cbv
  simp only [Prod.mk.injEq] at hrun
  exact ⟨(sound_run script).2 source 3 (by decide) hsource, hrun⟩

end AudioAtoms
