/-
ArmatureH1.ServerMoves — what one turn of a worker can do.

Two things are tracked through every turn: where the accepted connections
are, and which slots are taken. A worker has connections in three places of
its own (served, in the hands of the code between two shared accesses, held
as `pending`), and between a reservation and the moment it is used up or
given back it has a slot in hand. `Move` lists what a turn can do to these
and to the shared state, and `turn_move` says that every turn does one of
these things. Nothing behind it looks at a `Pc` to follow a connection or a
slot.

`Orderly` is what the order of the code says about the `Pc` itself: a worker
is retired and its inbox closed exactly when it is past these two lines, a
send fails only for a closed inbox, and `pending` is empty wherever the code
is about to assign it.
-/
import ArmatureH1.Server
import Mathlib.Algebra.Order.Group.Multiset

namespace ArmatureH1.Workers

variable {n : Nat}

/-! ## 1. Connections and slots in hand -/

/-- The connection in the hands of the code at this point. -/
def Pc.hand : Pc n → Option Handoff
  | mine h | probe h _ _ _ | reserve h _ | exchange h _ _ _ => some h.conn
  | placed h _ | sending h _ | refused h _ => some h.conn
  | adopting c _ | recount c => some c
  | _ => none

/-- The worker on which a slot is in hand at this point: reserved there, or
handed over with the connection, and not yet sent on, served or released. -/
def Pc.slot (me : Fin n) : Pc n → Option (Fin n)
  | placed _ w | sending _ w | refused _ w | releasing w _ => some w
  | adopting _ _ | recount _ => some me
  | _ => none

/-- The connections a worker has itself. -/
def Worker.bag (w : Worker n) : Multiset Handoff :=
  w.live + w.pc.hand.toList + w.pending.toList

/-- Putting one worker back changes no field that it kept. -/
theorem update_worker {β : Type*} (g : Worker n → β) {f : Fin n → Worker n} {me : Fin n}
    {w : Worker n} (h : g w = g (f me)) (v : Fin n) : g (Function.update f me w v) = g (f v) := by
  have hput := Function.apply_update (fun _ => g) f me w v
  rw [hput, h]
  exact congrFun (Function.update_eq_self me fun v => g (f v)) v

section Views

variable (w : Worker n) (pc : Pc n)

@[simp] theorem goto_pc : (w.goto pc).pc = pc := rfl

@[simp] theorem goto_live : (w.goto pc).live = w.live := rfl

@[simp] theorem goto_pending : (w.goto pc).pending = w.pending := rfl

@[simp] theorem serve_live (c : Handoff) : (w.serve c).live = c :: w.live := rfl

@[simp] theorem serve_pc (c : Handoff) : (w.serve c).pc = w.pc := rfl

@[simp] theorem serve_pending (c : Handoff) : (w.serve c).pending = w.pending := rfl

@[simp] theorem routed_live (back : Option Handoff) (r : Route) :
    (w.routed back r).live = w.live := by cases r <;> rfl

@[simp] theorem routed_pending (back : Option Handoff) (r : Route) :
    (w.routed back r).pending = back := by cases r <;> rfl

@[simp] theorem resume_live (next : Next) : (w.resume next).live = w.live := by
  cases next <;> simp [Worker.resume]

@[simp] theorem hand_routed (back : Option Handoff) (r : Route) :
    (w.routed back r).pc.hand = none := by cases r <;> rfl

@[simp] theorem slot_routed (me : Fin n) (back : Option Handoff) (r : Route) :
    (w.routed back r).pc.slot me = none := by cases r <;> rfl

@[simp] theorem hand_resume (next : Next) : (w.resume next).pc.hand = none := by
  cases next with
  | loop => rfl
  | routed r => exact hand_routed w none r
  | drain => rfl

@[simp] theorem slot_resume (me : Fin n) (next : Next) : (w.resume next).pc.slot me = none := by
  cases next with
  | loop => rfl
  | routed r => exact slot_routed w me none r
  | drain => rfl

end Views

/-! ## 2. The order of the code -/

/-- How far a worker is on its way out. -/
inductive Phase where
  | running
  | retired
  | closed
  | left
  deriving DecidableEq

def Phase.isRetired : Phase → Bool
  | running => false
  | _ => true

def Phase.isClosed : Phase → Bool
  | closed | left => true
  | _ => false

def Pc.phase : Pc n → Phase
  | close => .retired
  | drainHeld | drain | recount _ | adopting _ .drain | releasing _ .drain => .closed
  | left => .left
  | _ => .running

/-- Where `pending` may hold a connection. -/
def Pc.mayHold : Pc n → Bool
  | top | held | gate | parked | adopting _ .loop | releasing _ .loop => true
  | retire | close | drainHeld => true
  | _ => false

/-- What holds of every worker along a run because of the order in which the
code does things. -/
structure Orderly (s : Server n) : Prop where
  retired : ∀ w, s.balance.retired w = (s.worker w).pc.phase.isRetired
  closed : ∀ w, s.balance.closed w = (s.worker w).pc.phase.isClosed
  refused : ∀ w h u, (s.worker w).pc = .refused h u → s.balance.closed u = true
  pending : ∀ w, (s.worker w).pc.mayHold = false → (s.worker w).pending = none
  left : ∀ w, (s.worker w).pc = .left → s.balance.inbox w = []

/-- What a turn has to do for the order to last. -/
structure Fits (s : Server n) (me : Fin n) (t : Turn n) : Prop where
  retired : t.balance.retired
    = Function.update s.balance.retired me t.worker.pc.phase.isRetired
  closed : t.balance.closed
    = Function.update s.balance.closed me t.worker.pc.phase.isClosed
  onward : s.balance.closed me = true → t.worker.pc.phase.isClosed = true
  refused : ∀ h u, t.worker.pc = .refused h u → s.balance.closed u = true
  pending : t.worker.pc.mayHold = false → t.worker.pending = none
  left : t.worker.pc = .left → t.balance.inbox me = []
  inbox : ∀ u, u ≠ me → s.balance.closed u = true → t.balance.inbox u = s.balance.inbox u

section Order

variable {s : Server n} {me : Fin n} {t : Turn n} {i : Input}

theorem closed_of_left {w : Fin n} (o : Orderly s) (h : (s.worker w).pc = .left) :
    s.balance.closed w = true := by
  rw [o.closed w, h]
  rfl

/-- A closed inbox stays closed. -/
theorem Fits.closed_of_closed (f : Fits s me t) {u : Fin n} (h : s.balance.closed u = true) :
    t.balance.closed u = true := by
  rw [f.closed]
  by_cases hu : u = me
  · subst hu
    rw [Function.update_self]
    exact f.onward h
  · rw [Function.update_of_ne hu]
    exact h

theorem Orderly.apply (o : Orderly s) (f : Fits s me t) : Orderly (s.apply me t) where
  retired w := by
    rw [show (s.apply me t).balance.retired = t.balance.retired from rfl, f.retired,
      funext o.retired]
    exact (Function.apply_update (fun _ (w : Worker n) => w.pc.phase.isRetired) s.worker me
      t.worker w).symm
  closed w := by
    rw [show (s.apply me t).balance.closed = t.balance.closed from rfl, f.closed,
      funext o.closed]
    exact (Function.apply_update (fun _ (w : Worker n) => w.pc.phase.isClosed) s.worker me
      t.worker w).symm
  refused w h u hpc := by
    change (Function.update s.worker me t.worker w).pc = _ at hpc
    refine f.closed_of_closed ?_
    by_cases hw : w = me
    · rw [hw, Function.update_self] at hpc
      exact f.refused h u hpc
    · rw [Function.update_of_ne hw] at hpc
      exact o.refused w h u hpc
  pending w hpc := by
    change (Function.update s.worker me t.worker w).pc.mayHold = false at hpc
    show (Function.update s.worker me t.worker w).pending = none
    by_cases hw : w = me
    · subst hw
      rw [Function.update_self] at hpc ⊢
      exact f.pending hpc
    · rw [Function.update_of_ne hw] at hpc ⊢
      exact o.pending w hpc
  left w hpc := by
    change (Function.update s.worker me t.worker w).pc = .left at hpc
    show t.balance.inbox w = []
    by_cases hw : w = me
    · subst hw
      rw [Function.update_self] at hpc
      exact f.left hpc
    · rw [Function.update_of_ne hw] at hpc
      rw [f.inbox w hw (closed_of_left o hpc)]
      exact o.left w hpc

/-- A turn within one phase. -/
theorem Fits.of_phase (o : Orderly s) (hphase : t.worker.pc.phase = (s.worker me).pc.phase)
    (hretired : t.balance.retired = s.balance.retired)
    (hclosed : t.balance.closed = s.balance.closed)
    (hrefused : ∀ h u, t.worker.pc = .refused h u → s.balance.closed u = true)
    (hpending : t.worker.pc.mayHold = false → t.worker.pending = none)
    (hleft : t.worker.pc = .left → t.balance.inbox me = [])
    (hinbox : ∀ u, u ≠ me → s.balance.closed u = true →
      t.balance.inbox u = s.balance.inbox u) : Fits s me t where
  retired := by rw [hretired, hphase, ← o.retired me, Function.update_eq_self]
  closed := by rw [hclosed, hphase, ← o.closed me, Function.update_eq_self]
  onward h := by rw [hphase, ← o.closed me, h]
  refused := hrefused
  pending := hpending
  left := hleft
  inbox := hinbox

theorem Pc.eq_left_of_phase {pc : Pc n} (h : pc.phase = .left) : pc = .left := by
  unfold Pc.phase at h
  split at h <;> first | rfl | cases h

/-- A turn within one phase that leaves the shared state alone. -/
theorem Fits.own (o : Orderly s) {w : Worker n}
    (hphase : w.pc.phase = (s.worker me).pc.phase)
    (hrefused : ∀ h u, w.pc = .refused h u → s.balance.closed u = true)
    (hpending : w.pc.mayHold = false → w.pending = none) : Fits s me (s.own w) := by
  refine .of_phase o hphase rfl rfl hrefused hpending (fun hleft => ?_) fun _ _ _ => rfl
  have hpc : (s.worker me).pc.phase = .left := by
    rw [← hphase]
    show w.pc.phase = .left
    rw [show w.pc = .left from hleft]
    rfl
  exact o.left me (Pc.eq_left_of_phase hpc)

/-- The same for a turn that only moves on. -/
theorem Fits.goto (o : Orderly s) {pc : Pc n} (hphase : pc.phase = (s.worker me).pc.phase)
    (hrefused : ∀ h u, pc = .refused h u → s.balance.closed u = true)
    (hhold : pc.mayHold = true ∨ (s.worker me).pending = none) :
    Fits s me (s.own ((s.worker me).goto pc)) := by
  refine .own o hphase hrefused fun hpc => ?_
  rcases hhold with hhold | hnone
  · rw [goto_pc, hhold] at hpc
    cases hpc
  · exact hnone

theorem Fits.stay (o : Orderly s) : Fits s me (s.own (s.worker me)) :=
  .own o rfl (o.refused me) (o.pending me)

theorem turnRecv_fits (o : Orderly s) (hphase : (s.worker me).pc.phase = .running) :
    Fits s me (s.turnRecv me) := by
  unfold Server.turnRecv
  split
  · exact .stay o
  · refine .of_phase o (by rw [hphase]; rfl) rfl rfl (by simp [Server.shared]) nofun nofun ?_
    intro u hu _
    exact Function.update_of_ne hu _ _

theorem turnChanged_fits (o : Orderly s) (hphase : (s.worker me).pc.phase = .running)
    (gone : Bool) : Fits s me (s.turnChanged me gone) := by
  refine .goto o ?_ ?_ (.inl ?_)
  · rw [hphase]
    split <;> rfl
  · intro h u hpc
    split at hpc <;> cases hpc
  · split <;> rfl

theorem turnParked_fits (o : Orderly s) (hpc : (s.worker me).pc = .parked) (br : Branch) :
    Fits s me (s.turnParked me br) := by
  have hphase : (s.worker me).pc.phase = .running := by rw [hpc]; rfl
  cases br with
  | changed gone => exact turnChanged_fits o hphase gone
  | freed =>
      simp only [Server.turnParked]
      split
      · exact .of_phase o (by rw [hphase]; rfl) rfl rfl nofun nofun nofun fun _ _ _ => rfl
      · exact .stay o
  | recv => exact turnRecv_fits o hphase
  | sleep => exact .goto o (by rw [hphase]; rfl) nofun (.inl rfl)
  | accept => exact .stay o
  | acceptError _ => exact .stay o

theorem turnAccepting_fits (o : Orderly s) {armed : Bool}
    (hpc : (s.worker me).pc = .accepting armed) (br : Branch) :
    Fits s me (s.turnAccepting me armed br) := by
  have hphase : (s.worker me).pc.phase = .running := by rw [hpc]; rfl
  have hnone : (s.worker me).pending = none := o.pending me (by rw [hpc]; rfl)
  cases br with
  | changed gone => exact turnChanged_fits o hphase gone
  | freed => exact .stay o
  | recv => exact turnRecv_fits o hphase
  | sleep =>
      simp only [Server.turnAccepting]
      split
      · exact .goto o (by rw [hphase]; rfl) nofun (.inl rfl)
      · exact .stay o
  | accept =>
      exact .of_phase o (by rw [hphase]; rfl) rfl rfl nofun (fun _ => hnone) nofun
        fun _ _ _ => rfl
  | acceptError pause =>
      cases pause with
      | true => exact .goto o (by rw [hphase]; rfl) nofun (.inr hnone)
      | false => exact .goto o (by rw [hphase]; rfl) nofun (.inl rfl)

theorem phase_routed (w : Worker n) (back : Option Handoff) (r : Route) :
    (w.routed back r).pc.phase = .running := by cases r <;> rfl

theorem mayHold_routed (w : Worker n) (back : Option Handoff) (r : Route) :
    (w.routed back r).pc.mayHold = true := by cases r <;> rfl

theorem routed_ne_refused (w : Worker n) (back : Option Handoff) (r : Route) (h : Errand)
    (u : Fin n) : (w.routed back r).pc ≠ .refused h u := by cases r <;> nofun

theorem routed_ne_left (w : Worker n) (back : Option Handoff) (r : Route) :
    (w.routed back r).pc ≠ .left := by cases r <;> nofun

theorem turnNowhere_fits (o : Orderly s) {rest : List (Fin n)} (h : Errand)
    (hpc : (s.worker me).pc = .reserve h rest) : Fits s me (s.turnNowhere me i h) := by
  have hphase : (s.worker me).pc.phase = .running := by rw [hpc]; rfl
  cases h with
  | accepted c =>
      simp only [Server.turnNowhere]
      split
      · exact .own o (by rw [hphase]; rfl) nofun nofun
      · exact .goto o (by rw [hphase]; rfl) nofun (.inl rfl)
  | routing c r =>
      refine .own o ?_ ?_ ?_
      · rw [phase_routed, hphase]
      · exact fun _ _ heq => absurd heq (routed_ne_refused _ _ r _ _)
      · intro hno
        rw [mayHold_routed] at hno
        cases hno

theorem turnPlaced_fits (o : Orderly s) {u : Fin n} (h : Errand)
    (hpc : (s.worker me).pc = .placed h u) : Fits s me (s.turnPlaced me i u h) := by
  have hphase : (s.worker me).pc.phase = .running := by rw [hpc]; rfl
  have hnone : (s.worker me).pending = none := o.pending me (by rw [hpc]; rfl)
  cases h with
  | accepted c =>
      simp only [Server.turnPlaced]
      split
      · exact .own o (by rw [hphase]; rfl) nofun nofun
      split
      · exact .goto o (by rw [hphase]; rfl) nofun (.inr hnone)
      · exact .goto o (by rw [hphase]; rfl) nofun (.inl rfl)
  | routing c r =>
      simp only [Server.turnPlaced]
      split
      · exact .goto o (by rw [hphase]; rfl) nofun (.inr hnone)
      · exact .goto o (by rw [hphase]; rfl) nofun (.inr hnone)

/-- `adopt` and `release` go on within the phase. -/
theorem phase_resume (w : Worker n) (next : Next) :
    (w.resume next).pc.phase = if next = .drain then .closed else .running := by
  cases next with
  | loop => rfl
  | routed r => exact phase_routed w none r
  | drain => rfl

theorem resume_pending {w : Worker n} {next : Next} (h : next = .drain → w.pending = none)
    (hno : (w.resume next).pc.mayHold = false) : (w.resume next).pending = none := by
  cases next with
  | loop => cases hno
  | routed r => exact routed_pending w none r
  | drain => exact h rfl

theorem resume_ne_refused (w : Worker n) (next : Next) (h : Errand) (u : Fin n) :
    (w.resume next).pc ≠ .refused h u := by
  cases next with
  | loop => nofun
  | routed r => exact routed_ne_refused w none r h u
  | drain => nofun

theorem resume_ne_left (w : Worker n) (next : Next) : (w.resume next).pc ≠ .left := by
  cases next with
  | loop => nofun
  | routed r => exact routed_ne_left w none r
  | drain => nofun

theorem afterSend_cases (w : Worker n) (h : Errand) :
    (∃ c, h = .accepted c ∧ Server.afterSend w h = w.goto .top)
      ∨ ∃ c r, h = .routing c r ∧ Server.afterSend w h = w.routed none r := by
  cases h with
  | accepted c => exact .inl ⟨c, rfl, rfl⟩
  | routing c r => exact .inr ⟨c, r, rfl, rfl⟩

/-- A send to an open inbox touches no closed one. -/
theorem send_fits (o : Orderly s) {u : Fin n} (h : Errand)
    (hpc : (s.worker me).pc = .sending h u) (hopen : ¬s.balance.closed u = true) :
    Fits s me (s.shared (s.balance.send u h.conn) (Server.afterSend (s.worker me) h)) := by
  have hphase : (s.worker me).pc.phase = .running := by rw [hpc]; rfl
  have hinbox : ∀ v, v ≠ me → s.balance.closed v = true →
      (s.balance.send u h.conn).inbox v = s.balance.inbox v := by
    intro v _ hv
    refine Function.update_of_ne ?_ _ _
    rintro rfl
    exact hopen hv
  obtain ⟨c, rfl, hafter⟩ | ⟨c, r, rfl, hafter⟩ := afterSend_cases (s.worker me) h
  · rw [hafter]
    exact .of_phase o (by rw [hphase]; rfl) rfl rfl nofun nofun nofun hinbox
  · rw [hafter]
    refine .of_phase o ?_ rfl rfl ?_ ?_ ?_ hinbox
    · rw [hphase]
      exact phase_routed _ none r
    · exact fun _ _ heq => absurd heq (routed_ne_refused _ none r _ _)
    · exact fun _ => routed_pending _ none r
    · exact fun heq => absurd heq (routed_ne_left _ none r)

/-- A worker retires before it closes its inbox. -/
theorem retired_of_closed (o : Orderly s) {u : Fin n} (h : s.balance.closed u = true) :
    s.balance.retired u = true := by
  rw [o.closed u] at h
  rw [o.retired u]
  cases hu : (s.worker u).pc.phase with
  | running => rw [hu] at h; cases h
  | retired => rfl
  | closed => rfl
  | left => rfl

/-- `retire` of a target whose inbox is closed: it was retired before. -/
theorem refused_fits (o : Orderly s) {u : Fin n} (h : Errand)
    (hpc : (s.worker me).pc = .refused h u) :
    Fits s me (s.shared (s.balance.retire u) ((s.worker me).goto (.mine h.bounce))) := by
  have hnone : (s.worker me).pending = none := o.pending me (by rw [hpc]; rfl)
  have hretired : s.balance.retired u = true := retired_of_closed o (o.refused me h u hpc)
  refine .of_phase o (by rw [hpc]; rfl) ?_ rfl nofun (fun _ => hnone) nofun fun _ _ _ => rfl
  show Function.update s.balance.retired u true = s.balance.retired
  rw [← hretired, Function.update_eq_self]

theorem adopting_fits (o : Orderly s) {c : Handoff} {next : Next}
    (hpc : (s.worker me).pc = .adopting c next) :
    Fits s me (s.own (((s.worker me).serve c).resume next)) := by
  refine .own o ?_ ?_ ?_
  · rw [phase_resume, hpc]
    cases next <;> rfl
  · exact fun _ _ heq => absurd heq (resume_ne_refused _ next _ _)
  · refine resume_pending ?_
    rintro rfl
    exact o.pending me (by rw [hpc]; rfl)

theorem releasing_fits (o : Orderly s) {u : Fin n} {next : Next}
    (hpc : (s.worker me).pc = .releasing u next) :
    Fits s me (s.shared (s.balance.release u) ((s.worker me).resume next)) := by
  refine .of_phase o ?_ rfl rfl ?_ ?_ ?_ fun _ _ _ => rfl
  · show ((s.worker me).resume next).pc.phase = _
    rw [phase_resume, hpc]
    cases next <;> rfl
  · exact fun _ _ heq => absurd heq (resume_ne_refused _ next _ _)
  · refine resume_pending ?_
    rintro rfl
    exact o.pending me (by rw [hpc]; rfl)
  · exact fun heq => absurd heq (resume_ne_left _ next)

/-- Every turn fits. -/
theorem turn_fits (o : Orderly s) : Fits s me (s.turn me i) := by
  cases hpc : (s.worker me).pc with
  | top =>
      simp only [Server.turn, hpc]
      split
      · exact .goto o (by rw [hpc]; rfl) nofun (.inl rfl)
      · exact .goto o (by rw [hpc]; rfl) nofun (.inl rfl)
  | held =>
      simp only [Server.turn, hpc]
      split
      · exact .goto o (by rw [hpc]; rfl) nofun (.inl rfl)
      · exact .own o (by rw [hpc]; rfl) nofun fun _ => rfl
  | gate =>
      simp only [Server.turn, hpc]
      split
      · exact .goto o (by rw [hpc]; rfl) nofun (.inl rfl)
      rename_i hnone
      rw [Option.not_isSome_iff_eq_none] at hnone
      split
      · exact .goto o (by rw [hpc]; rfl) nofun (.inr hnone)
      · exact .goto o (by rw [hpc]; rfl) nofun (.inr hnone)
  | room rest =>
      have hnone : (s.worker me).pending = none := o.pending me (by rw [hpc]; rfl)
      cases rest with
      | nil =>
          simp only [Server.turn, hpc]
          exact .goto o (by rw [hpc]; rfl) nofun (.inl rfl)
      | cons _ rest =>
          simp only [Server.turn, hpc]
          split
          · exact .goto o (by rw [hpc]; rfl) nofun (.inr hnone)
          · exact .goto o (by rw [hpc]; rfl) nofun (.inr hnone)
  | parked =>
      simp only [Server.turn, hpc]
      exact turnParked_fits o hpc i.branch
  | arm =>
      have hnone : (s.worker me).pending = none := o.pending me (by rw [hpc]; rfl)
      simp only [Server.turn, hpc]
      exact .goto o (by rw [hpc]; rfl) nofun (.inr hnone)
  | accepting armed =>
      simp only [Server.turn, hpc]
      exact turnAccepting_fits o hpc i.branch
  | backoff =>
      simp only [Server.turn, hpc]
      exact .goto o (by rw [hpc]; rfl) nofun (.inl rfl)
  | mine h =>
      have hnone : (s.worker me).pending = none := o.pending me (by rw [hpc]; rfl)
      simp only [Server.turn, hpc]
      split
      · exact .goto o (by rw [hpc]; rfl) nofun (.inr hnone)
      · exact .own o (by rw [hpc]; rfl) nofun fun _ => hnone
  | probe h mine best rest =>
      have hnone : (s.worker me).pending = none := o.pending me (by rw [hpc]; rfl)
      cases rest with
      | nil =>
          simp only [Server.turn, hpc]
          exact .goto o (by rw [hpc]; rfl) nofun (.inr hnone)
      | cons p rest =>
          simp only [Server.turn, hpc]
          exact .goto o (by rw [hpc]; rfl) nofun (.inr hnone)
  | reserve h rest =>
      have hnone : (s.worker me).pending = none := o.pending me (by rw [hpc]; rfl)
      cases rest with
      | nil =>
          simp only [Server.turn, hpc]
          exact turnNowhere_fits o h hpc
      | cons u rest =>
          simp only [Server.turn, hpc]
          exact .goto o (by rw [hpc]; rfl) nofun (.inr hnone)
  | exchange h u seen rest =>
      have hnone : (s.worker me).pending = none := o.pending me (by rw [hpc]; rfl)
      simp only [Server.turn, hpc]
      split
      · split
        · exact .of_phase o (by rw [hpc]; rfl) rfl rfl nofun (fun _ => hnone) nofun
            fun _ _ _ => rfl
        · exact .goto o (by rw [hpc]; rfl) nofun (.inr hnone)
      · exact .goto o (by rw [hpc]; rfl) nofun (.inr hnone)
  | placed h u =>
      simp only [Server.turn, hpc]
      exact turnPlaced_fits o h hpc
  | sending h u =>
      have hnone : (s.worker me).pending = none := o.pending me (by rw [hpc]; rfl)
      simp only [Server.turn, hpc]
      split
      · rename_i hclosed
        refine .goto o (by rw [hpc]; rfl) ?_ (.inr hnone)
        rintro _ _ ⟨⟩
        exact hclosed
      · rename_i hopen
        exact send_fits o h hpc hopen
  | refused h u =>
      simp only [Server.turn, hpc]
      exact refused_fits o h hpc
  | adopting c next =>
      simp only [Server.turn, hpc]
      split
      · exact adopting_fits o hpc
      · refine .goto o ?_ nofun ?_
        · rw [hpc]
          cases next <;> rfl
        · cases next with
          | loop => exact .inl rfl
          | routed r => exact .inr (o.pending me (by rw [hpc]; rfl))
          | drain => exact .inr (o.pending me (by rw [hpc]; rfl))
  | releasing u next =>
      simp only [Server.turn, hpc]
      exact releasing_fits o hpc
  | retire =>
      simp only [Server.turn, hpc]
      refine ⟨rfl, ?_, ?_, nofun, nofun, nofun, fun _ _ _ => rfl⟩
      · have hclosed : s.balance.closed me = false := by rw [o.closed me, hpc]; rfl
        show s.balance.closed = Function.update s.balance.closed me false
        rw [← hclosed, Function.update_eq_self]
      · rw [o.closed me, hpc]
        nofun
  | close =>
      simp only [Server.turn, hpc]
      refine ⟨?_, rfl, fun _ => rfl, nofun, nofun, nofun, fun _ _ _ => rfl⟩
      have hretired : s.balance.retired me = true := by rw [o.retired me, hpc]; rfl
      show s.balance.retired = Function.update s.balance.retired me true
      rw [← hretired, Function.update_eq_self]
  | drainHeld =>
      simp only [Server.turn, hpc]
      split
      · rename_i hnone
        exact .goto o (by rw [hpc]; rfl) nofun (.inr hnone)
      · exact .of_phase o (by rw [hpc]; rfl) rfl rfl nofun (fun _ => rfl) nofun
          fun _ _ _ => rfl
  | drain =>
      have hnone : (s.worker me).pending = none := o.pending me (by rw [hpc]; rfl)
      simp only [Server.turn, hpc]
      split
      · rename_i hempty
        split
        · rename_i hclosed
          have hretired : s.balance.retired me = true := by rw [o.retired me, hpc]; rfl
          refine ⟨?_, ?_, fun _ => rfl, nofun, fun _ => hnone, fun _ => hempty,
            fun _ _ _ => rfl⟩
          · show s.balance.retired = Function.update s.balance.retired me true
            rw [← hretired, Function.update_eq_self]
          · show s.balance.closed = Function.update s.balance.closed me true
            rw [← hclosed, Function.update_eq_self]
        · exact .stay o
      · refine .of_phase o (by rw [hpc]; rfl) rfl rfl nofun (fun _ => hnone) nofun ?_
        intro u hu _
        exact Function.update_of_ne hu _ _
  | recount c =>
      have hnone : (s.worker me).pending = none := o.pending me (by rw [hpc]; rfl)
      simp only [Server.turn, hpc]
      exact .of_phase o (by rw [hpc]; rfl) rfl rfl nofun (fun _ => hnone) nofun
        fun _ _ _ => rfl
  | left =>
      simp only [Server.turn, hpc]
      exact .stay o

theorem orderly_start (n : Nat) (maxConnections : UInt64) :
    Orderly (Server.start n maxConnections) where
  retired _ := rfl
  closed _ := rfl
  refused := nofun
  pending := nofun
  left := nofun

/-- The end of a connection moves no worker on. -/
theorem finish_pc (s : Server n) (w : Fin n) (c : Handoff) (v : Fin n) :
    ((s.finish w c).worker v).pc = (s.worker v).pc := by
  unfold Server.finish
  split
  · refine update_worker Worker.pc ?_ v
    rfl
  · rfl

theorem finish_pending (s : Server n) (w : Fin n) (c : Handoff) (v : Fin n) :
    ((s.finish w c).worker v).pending = (s.worker v).pending := by
  unfold Server.finish
  split
  · refine update_worker Worker.pending ?_ v
    rfl
  · rfl

theorem orderly_finish (o : Orderly s) (w : Fin n) (c : Handoff) :
    Orderly (s.finish w c) := by
  have hpc := finish_pc s w c
  have hbooks : (s.finish w c).balance.retired = s.balance.retired
      ∧ (s.finish w c).balance.closed = s.balance.closed
      ∧ (s.finish w c).balance.inbox = s.balance.inbox := by
    unfold Server.finish
    split <;> exact ⟨rfl, rfl, rfl⟩
  obtain ⟨hretired, hclosed, hinbox⟩ := hbooks
  constructor
  · exact fun v => by rw [hretired, hpc v]; exact o.retired v
  · exact fun v => by rw [hclosed, hpc v]; exact o.closed v
  · exact fun v => by rw [hclosed, hpc v]; exact o.refused v
  · exact fun v => by rw [hpc v, finish_pending]; exact o.pending v
  · exact fun v => by rw [hinbox, hpc v]; exact o.left v

theorem orderly_step (o : Orderly s) (e : Server.Event n) : Orderly (s.step e) := by
  cases e with
  | signal => exact ⟨o.retired, o.closed, o.refused, o.pending, o.left⟩
  | finish w c => exact orderly_finish o w c
  | turn w i => exact o.apply (turn_fits o)

/-- Where a turn leaves the worker that takes it, and the others. -/
theorem step_turn_self (s : Server n) (me : Fin n) (i : Input) :
    (s.step (.turn me i)).worker me = (s.turn me i).worker := Function.update_self ..

theorem step_turn_other (s : Server n) (i : Input) {me v : Fin n} (hv : v ≠ me) :
    (s.step (.turn me i)).worker v = s.worker v := Function.update_of_ne hv ..

/-- What every step keeps, a run keeps. -/
theorem run_induction {P : Server n → Prop} (hs : P s) {es : List (Server.Event n)}
    (hstep : ∀ (s : Server n), ∀ e ∈ es, P s → P (s.step e)) : P (s.run es) := by
  induction es generalizing s with
  | nil => exact hs
  | cons e es ih =>
      have hnext : P (s.step e) := hstep s e (by simp) hs
      exact ih hnext fun s' e' he' => hstep s' e' (List.mem_cons_of_mem e he')

theorem orderly_run (n : Nat) (maxConnections : UInt64) (es : List (Server.Event n)) :
    Orderly ((Server.start n maxConnections).run es) :=
  run_induction (orderly_start n maxConnections) fun _ e _ o => orderly_step o e

end Order

/-! ## 3. Moves -/

/-- The same counts, queues and retirements. -/
structure Balance.SameBooks (b b' : Balance n) : Prop where
  count : b'.count = b.count
  inbox : b'.inbox = b.inbox
  retired : b'.retired = b.retired
  cap : b'.cap = b.cap

theorem Balance.SameBooks.refl (b : Balance n) : b.SameBooks b := ⟨rfl, rfl, rfl, rfl⟩

/-- What a turn of `me` can do to connections and slots. -/
inductive Move (s : Server n) (me : Fin n) (i : Input) : Turn n → Prop where
  /-- Nothing moves. -/
  | stay {b : Balance n} {w : Worker n} (hbooks : s.balance.SameBooks b)
      (hslot : w.pc.slot me = (s.worker me).pc.slot me)
      (hlive : w.live = (s.worker me).live) (hbag : w.bag = (s.worker me).bag) :
      Move s me i ⟨b, s.accepted, w⟩
  /-- A connection is accepted. -/
  | accept {w : Worker n} (hslot : w.pc.slot me = (s.worker me).pc.slot me)
      (hlive : w.live = (s.worker me).live)
      (hbag : w.bag = s.accepted ::ₘ (s.worker me).bag) :
      Move s me i ⟨s.balance, s.accepted + 1, w⟩
  /-- `reserve(u)` counts one more, below the cap. -/
  | reserve {w : Worker n} (u : Fin n) (hcap : s.balance.count u < s.balance.cap)
      (hold : (s.worker me).pc.slot me = none) (hslot : w.pc.slot me = some u)
      (hlive : w.live = (s.worker me).live) (hbag : w.bag = (s.worker me).bag) :
      Move s me i ⟨s.balance.exchange u (s.balance.count u), s.accepted, w⟩
  /-- The slot in hand is given back. -/
  | release {w : Worker n} (u : Fin n) (hold : (s.worker me).pc.slot me = some u)
      (hslot : w.pc.slot me = none)
      (hlive : w.live = (s.worker me).live) (hbag : w.bag = (s.worker me).bag) :
      Move s me i ⟨s.balance.release u, s.accepted, w⟩
  /-- `into_std` or `from_std` fails, and the connection is gone. -/
  | lose {w : Worker n} (c : Handoff) (hfail : i.converts = false)
      (hslot : w.pc.slot me = (s.worker me).pc.slot me)
      (hlive : w.live = (s.worker me).live) (hbag : (s.worker me).bag = c ::ₘ w.bag) :
      Move s me i ⟨s.balance, s.accepted, w⟩
  /-- The connection and the slot in hand become a task and its `ConnSlot`. -/
  | serve {w : Worker n} (c : Handoff) (hold : (s.worker me).pc.slot me = some me)
      (hslot : w.pc.slot me = none)
      (hlive : w.live = c :: (s.worker me).live) (hbag : w.bag = (s.worker me).bag) :
      Move s me i ⟨s.balance, s.accepted, w⟩
  /-- They go to the inbox of `u`. -/
  | send {w : Worker n} (u : Fin n) (c : Handoff)
      (hold : (s.worker me).pc.slot me = some u) (hslot : w.pc.slot me = none)
      (hlive : w.live = (s.worker me).live) (hbag : (s.worker me).bag = c ::ₘ w.bag) :
      Move s me i ⟨s.balance.send u c, s.accepted, w⟩
  /-- They come out of the worker's own inbox. -/
  | recv {w : Worker n} (c : Handoff) (rest : List Handoff)
      (hinbox : s.balance.inbox me = c :: rest)
      (hold : (s.worker me).pc.slot me = none) (hslot : w.pc.slot me = some me)
      (hlive : w.live = (s.worker me).live) (hbag : w.bag = c ::ₘ (s.worker me).bag) :
      Move s me i ⟨s.balance.recv me rest, s.accepted, w⟩
  /-- `retire(u)`, with at most a slot on `u` in hand. -/
  | retire {w : Worker n} (u : Fin n)
      (hold : ∀ v, (s.worker me).pc.slot me = some v → v = u)
      (hslot : w.pc.slot me = none)
      (hlive : w.live = (s.worker me).live) (hbag : w.bag = (s.worker me).bag) :
      Move s me i ⟨s.balance.retire u, s.accepted, w⟩
  /-- A retired worker counts a connection again. -/
  | recount {w : Worker n} (hretired : s.balance.retired me = true)
      (hold : ∀ v, (s.worker me).pc.slot me = some v → v = me)
      (hslot : w.pc.slot me = some me)
      (hlive : w.live = (s.worker me).live) (hbag : w.bag = (s.worker me).bag) :
      Move s me i ⟨s.balance.recount me, s.accepted, w⟩

section Moves

variable {s : Server n} {me : Fin n} {i : Input}

theorem bag_of_eq {w w' : Worker n} (hlive : w'.live = w.live) (hhand : w'.pc.hand = w.pc.hand)
    (hpending : w'.pending = w.pending) : w'.bag = w.bag := by
  rw [Worker.bag, Worker.bag, hlive, hhand, hpending]

/-- A connection comes into the worker's hands. -/
theorem bag_take {w w' : Worker n} {c : Handoff} (hlive : w'.live = w.live)
    (hbefore : w.pc.hand = none) (hafter : w'.pc.hand = some c)
    (hpending : w'.pending = w.pending) : w'.bag = c ::ₘ w.bag := by
  have hone : ((some c).toList : Multiset Handoff) = {c} := rfl
  have hzero : ((none : Option Handoff).toList : Multiset Handoff) = 0 := rfl
  rw [Worker.bag, Worker.bag, hlive, hbefore, hafter, hpending, hone, hzero, add_zero,
    ← Multiset.singleton_add, ← add_assoc, add_comm ({c} : Multiset Handoff)]

/-- It goes from `pending` into the worker's hands. -/
theorem bag_pick {w w' : Worker n} {c : Handoff} (hlive : w'.live = w.live)
    (hbefore : w.pc.hand = none) (hheld : w.pending = some c)
    (hafter : w'.pc.hand = some c) (hnone : w'.pending = none) : w'.bag = w.bag := by
  have hone : ((some c).toList : Multiset Handoff) = {c} := rfl
  have hzero : ((none : Option Handoff).toList : Multiset Handoff) = 0 := rfl
  rw [Worker.bag, Worker.bag, hlive, hbefore, hheld, hafter, hnone, hone, hzero, add_zero,
    add_zero]

/-- It goes from the worker's hands to its task. -/
theorem bag_serve {w w' : Worker n} {c : Handoff} (hlive : w'.live = c :: w.live)
    (hbefore : w.pc.hand = some c) (hafter : w'.pc.hand = none)
    (hpending : w'.pending = w.pending) : w'.bag = w.bag := by
  have hone : ((some c).toList : Multiset Handoff) = {c} := rfl
  have hzero : ((none : Option Handoff).toList : Multiset Handoff) = 0 := rfl
  rw [Worker.bag, Worker.bag, hlive, hbefore, hafter, hpending, hone, hzero, add_zero,
    ← Multiset.cons_coe, ← Multiset.singleton_add, add_comm ({c} : Multiset Handoff)]

/-- Only the `Pc` changes, and not what is in hand. -/
theorem Move.goto {pc pc' : Pc n} (hpc : (s.worker me).pc = pc)
    (hslot : pc'.slot me = pc.slot me) (hhand : pc'.hand = pc.hand) :
    Move s me i (s.own ((s.worker me).goto pc')) := by
  subst hpc
  exact .stay (.refl _) hslot rfl (bag_of_eq rfl hhand rfl)

theorem Move.still : Move s me i (s.own (s.worker me)) := .stay (.refl _) rfl rfl rfl

theorem turnRecv_move {pc : Pc n} (hpc : (s.worker me).pc = pc) (hslot : pc.slot me = none)
    (hhand : pc.hand = none) : Move s me i (s.turnRecv me) := by
  subst hpc
  unfold Server.turnRecv
  split
  · exact .still
  · rename_i c rest hinbox
    exact .recv c rest hinbox hslot rfl rfl (bag_take rfl hhand rfl rfl)

theorem turnChanged_move {pc : Pc n} (hpc : (s.worker me).pc = pc) (hslot : pc.slot me = none)
    (hhand : pc.hand = none) (gone : Bool) : Move s me i (s.turnChanged me gone) := by
  unfold Server.turnChanged
  split
  · exact .goto hpc hslot.symm hhand.symm
  · exact .goto hpc hslot.symm hhand.symm

theorem turnParked_move (hpc : (s.worker me).pc = .parked) (br : Branch) :
    Move s me i (s.turnParked me br) := by
  cases br with
  | changed gone => exact turnChanged_move hpc rfl rfl gone
  | freed =>
      simp only [Server.turnParked]
      split
      · refine .stay ⟨rfl, rfl, rfl, rfl⟩ ?_ rfl (bag_of_eq rfl ?_ rfl)
        · rw [hpc]; rfl
        · rw [hpc]; rfl
      · exact .still
  | recv => exact turnRecv_move hpc rfl rfl
  | sleep => exact .goto hpc rfl rfl
  | accept => exact .still
  | acceptError _ => exact .still

theorem turnAccepting_move {armed : Bool} (hpc : (s.worker me).pc = .accepting armed)
    (br : Branch) : Move s me i (s.turnAccepting me armed br) := by
  cases br with
  | changed gone => exact turnChanged_move hpc rfl rfl gone
  | freed => exact .still
  | recv => exact turnRecv_move hpc rfl rfl
  | sleep =>
      simp only [Server.turnAccepting]
      split
      · exact .goto hpc rfl rfl
      · exact .still
  | accept =>
      refine .accept ?_ rfl (bag_take rfl ?_ rfl rfl)
      · rw [hpc]; rfl
      · rw [hpc]; rfl
  | acceptError pause =>
      cases pause with
      | true => exact .goto hpc rfl rfl
      | false => exact .goto hpc rfl rfl

theorem turnNowhere_move (o : Orderly s) {rest : List (Fin n)} (h : Errand)
    (hpc : (s.worker me).pc = .reserve h rest) : Move s me i (s.turnNowhere me i h) := by
  have hnone : (s.worker me).pending = none := o.pending me (by rw [hpc]; rfl)
  have hhand : (s.worker me).pc.hand = some h.conn := by rw [hpc]; rfl
  have hslot : (s.worker me).pc.slot me = none := by rw [hpc]; rfl
  cases h with
  | accepted c =>
      simp only [Server.turnNowhere]
      split
      · refine .stay (.refl _) hslot.symm rfl (Eq.symm ?_)
        exact bag_pick rfl rfl rfl hhand hnone
      · rename_i hfail
        exact .lose c (by simpa using hfail) hslot.symm rfl (bag_take rfl rfl hhand rfl)
  | routing c r =>
      refine .stay (.refl _) ?_ (routed_live _ _ r) ?_
      · rw [slot_routed, hslot]
      · exact (bag_pick (routed_live _ _ r).symm (hand_routed _ _ r) (routed_pending _ _ r)
          hhand hnone).symm

theorem turnPlaced_move {u : Fin n} (h : Errand)
    (hpc : (s.worker me).pc = .placed h u) : Move s me i (s.turnPlaced me i u h) := by
  have hhand : (s.worker me).pc.hand = some h.conn := by rw [hpc]; rfl
  have hslot : (s.worker me).pc.slot me = some u := by rw [hpc]; rfl
  cases h with
  | accepted c =>
      simp only [Server.turnPlaced]
      split
      · rename_i hme
        subst hme
        exact .serve c hslot rfl rfl (bag_serve rfl hhand rfl rfl)
      split
      · exact .goto hpc rfl rfl
      · rename_i hfail
        exact .lose c (by simpa using hfail) hslot.symm rfl (bag_take rfl rfl hhand rfl)
  | routing c r =>
      simp only [Server.turnPlaced]
      split
      · rename_i hme
        subst hme
        exact .goto hpc rfl rfl
      · exact .goto hpc rfl rfl

theorem send_move (o : Orderly s) {u : Fin n} (h : Errand)
    (hpc : (s.worker me).pc = .sending h u) :
    Move s me i (s.shared (s.balance.send u h.conn) (Server.afterSend (s.worker me) h)) := by
  have hnone : (s.worker me).pending = none := o.pending me (by rw [hpc]; rfl)
  have hhand : (s.worker me).pc.hand = some h.conn := by rw [hpc]; rfl
  have hslot : (s.worker me).pc.slot me = some u := by rw [hpc]; rfl
  obtain ⟨c, rfl, hafter⟩ | ⟨c, r, rfl, hafter⟩ := afterSend_cases (s.worker me) h
  · rw [hafter]
    exact .send u c hslot rfl rfl (bag_take rfl rfl hhand rfl)
  · rw [hafter]
    refine .send u c hslot (slot_routed _ me none r) (routed_live _ none r) ?_
    exact bag_take (routed_live _ none r).symm (hand_routed _ none r) hhand
      (by rw [routed_pending, hnone])

/-- What `adopt` and `release` go on with is what the worker held before. -/
theorem resume_pending_eq (o : Orderly s) {next : Next} {w : Worker n}
    (hw : w.pending = (s.worker me).pending)
    (hpc : ∀ r, next = .routed r → (s.worker me).pc.mayHold = false) :
    (w.resume next).pending = (s.worker me).pending := by
  cases next with
  | loop => exact hw
  | routed r =>
      rw [o.pending me (hpc r rfl)]
      exact routed_pending w none r
  | drain => exact hw

theorem adopting_move (o : Orderly s) {c : Handoff} {next : Next}
    (hpc : (s.worker me).pc = .adopting c next) :
    Move s me i (s.own (((s.worker me).serve c).resume next)) := by
  have hhand : (s.worker me).pc.hand = some c := by rw [hpc]; rfl
  have hpending : (((s.worker me).serve c).resume next).pending = (s.worker me).pending := by
    refine resume_pending_eq o rfl ?_
    rintro r rfl
    rw [hpc]
    rfl
  refine .serve c (by rw [hpc]; rfl) (slot_resume _ me next) (resume_live _ next) ?_
  exact bag_serve (resume_live _ next) hhand (hand_resume _ next) hpending

theorem releasing_move (o : Orderly s) {u : Fin n} {next : Next}
    (hpc : (s.worker me).pc = .releasing u next) :
    Move s me i (s.shared (s.balance.release u) ((s.worker me).resume next)) := by
  have hpending : ((s.worker me).resume next).pending = (s.worker me).pending := by
    refine resume_pending_eq o rfl ?_
    rintro r rfl
    rw [hpc]
    rfl
  refine .release u (by rw [hpc]; rfl) (slot_resume _ me next) (resume_live _ next) ?_
  exact bag_of_eq (resume_live _ next) (by rw [hand_resume, hpc]; rfl) hpending

/-- Every turn is one of the moves. -/
theorem turn_move (o : Orderly s) : Move s me i (s.turn me i) := by
  cases hpc : (s.worker me).pc with
  | top =>
      simp only [Server.turn, hpc]
      split
      · exact .goto hpc rfl rfl
      · exact .goto hpc rfl rfl
  | held =>
      simp only [Server.turn, hpc]
      split
      · exact .goto hpc rfl rfl
      · rename_i c hheld
        refine .stay (.refl _) (by rw [hpc]; rfl) rfl ?_
        exact bag_pick rfl (by rw [hpc]; rfl) hheld rfl rfl
  | gate =>
      simp only [Server.turn, hpc]
      split
      · exact .goto hpc rfl rfl
      split
      · exact .goto hpc rfl rfl
      · exact .goto hpc rfl rfl
  | room rest =>
      cases rest with
      | nil =>
          simp only [Server.turn, hpc]
          exact .goto hpc rfl rfl
      | cons _ rest =>
          simp only [Server.turn, hpc]
          split
          · exact .goto hpc rfl rfl
          · exact .goto hpc rfl rfl
  | parked =>
      simp only [Server.turn, hpc]
      exact turnParked_move hpc i.branch
  | arm =>
      simp only [Server.turn, hpc]
      exact .goto hpc rfl rfl
  | accepting armed =>
      simp only [Server.turn, hpc]
      exact turnAccepting_move hpc i.branch
  | backoff =>
      simp only [Server.turn, hpc]
      exact .goto hpc rfl rfl
  | mine h =>
      simp only [Server.turn, hpc]
      split
      · exact .goto hpc rfl rfl
      · exact .stay (.refl _) (by rw [hpc]; rfl) rfl (bag_of_eq rfl (by rw [hpc]; rfl) rfl)
  | probe h mine best rest =>
      cases rest with
      | nil =>
          simp only [Server.turn, hpc]
          exact .goto hpc rfl rfl
      | cons p rest =>
          simp only [Server.turn, hpc]
          exact .goto hpc rfl rfl
  | reserve h rest =>
      cases rest with
      | nil =>
          simp only [Server.turn, hpc]
          exact turnNowhere_move o h hpc
      | cons u rest =>
          simp only [Server.turn, hpc]
          exact .goto hpc rfl rfl
  | exchange h u seen rest =>
      simp only [Server.turn, hpc]
      split
      · rename_i hcap
        split
        · rename_i hok
          obtain ⟨rfl, -⟩ := hok
          exact .reserve u hcap (by rw [hpc]; rfl) rfl rfl
            (bag_of_eq rfl (by rw [hpc]; rfl) rfl)
        · exact .goto hpc rfl rfl
      · exact .goto hpc rfl rfl
  | placed h u =>
      simp only [Server.turn, hpc]
      exact turnPlaced_move h hpc
  | sending h u =>
      simp only [Server.turn, hpc]
      split
      · exact .goto hpc rfl rfl
      · exact send_move o h hpc
  | refused h u =>
      simp only [Server.turn, hpc]
      refine .retire u ?_ rfl rfl (bag_of_eq rfl ?_ rfl)
      · rw [hpc]
        rintro v ⟨⟩
        rfl
      · rw [hpc]
        cases h <;> rfl
  | adopting c next =>
      simp only [Server.turn, hpc]
      split
      · exact adopting_move o hpc
      · rename_i hfail
        refine .lose c (by simpa using hfail) (by rw [hpc]; rfl) rfl ?_
        exact bag_take rfl rfl (by rw [hpc]; rfl) rfl
  | releasing u next =>
      simp only [Server.turn, hpc]
      exact releasing_move o hpc
  | retire =>
      simp only [Server.turn, hpc]
      refine .retire me ?_ rfl rfl (bag_of_eq rfl (by rw [hpc]; rfl) rfl)
      rw [hpc]
      nofun
  | close =>
      simp only [Server.turn, hpc]
      exact .stay ⟨rfl, rfl, rfl, rfl⟩ (by rw [hpc]; rfl) rfl
        (bag_of_eq rfl (by rw [hpc]; rfl) rfl)
  | drainHeld =>
      have hretired : s.balance.retired me = true := by rw [o.retired me, hpc]; rfl
      simp only [Server.turn, hpc]
      split
      · exact .goto hpc rfl rfl
      · rename_i c hheld
        refine .recount hretired ?_ rfl rfl (bag_pick rfl (by rw [hpc]; rfl) hheld rfl rfl)
        rw [hpc]
        nofun
  | drain =>
      simp only [Server.turn, hpc]
      split
      · split
        · exact .goto hpc rfl rfl
        · exact .still
      · rename_i c rest hinbox
        exact .recv c rest hinbox (by rw [hpc]; rfl) rfl rfl
          (bag_take rfl (by rw [hpc]; rfl) rfl rfl)
  | recount c =>
      have hretired : s.balance.retired me = true := by rw [o.retired me, hpc]; rfl
      simp only [Server.turn, hpc]
      refine .recount hretired ?_ rfl rfl (bag_of_eq rfl (by rw [hpc]; rfl) rfl)
      rw [hpc]
      rintro v ⟨⟩
      rfl
  | left =>
      simp only [Server.turn, hpc]
      exact .still

end Moves

end ArmatureH1.Workers
