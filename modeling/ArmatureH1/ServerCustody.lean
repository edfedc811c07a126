/-
ArmatureH1.ServerCustody — no accepted connection is lost or served twice.

The connections the server has are spread over four kinds of place: the
tasks of a worker, its inbox, its hands between two shared accesses, and its
`pending`. `custody` is what all places hold together, and the invariant is
one equation between multisets: what is in custody and what has finished are,
together, the connections accepted so far, each of them once. A turn only
moves connections (`custody_apply`), so the equation lasts, and since nothing
occurs twice in it, every connection that has not finished is in one place
and once.

That `pending` is never assigned over a connection, and that nothing is left
in an inbox nobody reads any more, are facts about the order of the code and
come from `Orderly`.
-/
import ArmatureH1.ServerSlots
import Mathlib.Algebra.BigOperators.Group.Finset.Sigma
import Mathlib.Data.Fintype.BigOperators
import Mathlib.Tactic.Abel

namespace ArmatureH1.Workers

variable {n : Nat}

/-! ## 1. Places -/

/-- The four kinds of place. -/
inductive Station where
  | served
  | queued
  | hands
  | pending
  deriving DecidableEq

instance : Fintype Station where
  elems := {.served, .queued, .hands, .pending}
  complete st := by cases st <;> decide

/-- One of them, on one worker. -/
abbrev Place (n : Nat) := Station × Fin n

/-- The connections in a place. -/
def Server.holds (s : Server n) : Place n → List Handoff
  | (.served, w) => (s.worker w).live
  | (.queued, w) => s.balance.inbox w
  | (.hands, w) => (s.worker w).pc.hand.toList
  | (.pending, w) => (s.worker w).pending.toList

/-- The connections in all places. -/
def Server.custody (s : Server n) : Multiset Handoff :=
  Ledger.total fun p => (s.holds p : Multiset Handoff)

/-- What the workers have themselves. -/
def Server.bags (s : Server n) : Multiset Handoff := Ledger.total fun w => (s.worker w).bag

/-- What is queued. -/
def Balance.queues (b : Balance n) : Multiset Handoff :=
  Ledger.total fun w => (b.inbox w : Multiset Handoff)

theorem sum_station {M : Type*} [AddCommMonoid M] (f : Station → M) :
    ∑ st, f st = f .served + (f .queued + (f .hands + f .pending)) := by
  show ∑ st ∈ {Station.served, .queued, .hands, .pending}, f st = _
  rw [Finset.sum_insert (by decide), Finset.sum_insert (by decide),
    Finset.sum_insert (by decide), Finset.sum_singleton]

theorem custody_eq (s : Server n) : s.custody = s.bags + s.balance.queues := by
  have hsplit : s.custody = ∑ w, (s.holds (.served, w) : Multiset Handoff)
      + (∑ w, (s.holds (.queued, w) : Multiset Handoff)
      + (∑ w, (s.holds (.hands, w) : Multiset Handoff)
      + ∑ w, (s.holds (.pending, w) : Multiset Handoff))) := by
    rw [Server.custody, Ledger.total, Fintype.sum_prod_type, sum_station]
  have hbags : s.bags = ∑ w, (s.holds (.served, w) : Multiset Handoff)
      + ∑ w, (s.holds (.hands, w) : Multiset Handoff)
      + ∑ w, (s.holds (.pending, w) : Multiset Handoff) := by
    rw [← Finset.sum_add_distrib, ← Finset.sum_add_distrib]
    rfl
  have hqueues : s.balance.queues = ∑ w, (s.holds (.queued, w) : Multiset Handoff) := rfl
  rw [hsplit, hbags, hqueues]
  abel

/-! ## 2. Turns move connections -/

section Moving

variable {s : Server n} {me : Fin n} {i : Input} {t : Turn n}

/-- A turn changes what the workers have by what it does to its own. -/
theorem bags_apply (s : Server n) (me : Fin n) (t : Turn n) :
    (s.apply me t).bags
      = Ledger.total (Function.update (fun w => (s.worker w).bag) me t.worker.bag) := by
  refine congrArg Ledger.total (funext fun w => ?_)
  exact Function.apply_update (fun _ (w : Worker n) => w.bag) ..

theorem bags_apply_same (hbag : t.worker.bag = (s.worker me).bag) :
    (s.apply me t).bags = s.bags := by
  rw [bags_apply, hbag, Function.update_eq_self (a := me) (f := fun w => (s.worker w).bag)]
  rfl

theorem bags_apply_gain {c : Handoff} (hbag : t.worker.bag = c ::ₘ (s.worker me).bag) :
    (s.apply me t).bags = c ::ₘ s.bags := by
  rw [bags_apply]
  exact Ledger.total_update_cons hbag

theorem bags_apply_give {c : Handoff} (hbag : (s.worker me).bag = c ::ₘ t.worker.bag) :
    c ::ₘ (s.apply me t).bags = s.bags := by
  rw [bags_apply]
  exact Ledger.cons_total_update hbag

theorem inbox_coe_update (f : Fin n → List Handoff) (u : Fin n) (q : List Handoff) :
    (fun w => (Function.update f u q w : Multiset Handoff))
      = Function.update (fun w => (f w : Multiset Handoff)) u q := by
  funext w
  exact Function.apply_update (fun _ (q : List Handoff) => (q : Multiset Handoff)) ..

theorem queues_send (b : Balance n) (u : Fin n) (c : Handoff) :
    (b.send u c).queues = c ::ₘ b.queues := by
  have hnew : ((b.inbox u ++ [c] : List Handoff) : Multiset Handoff) = c ::ₘ b.inbox u := by
    rw [← Multiset.coe_add, add_comm]
    rfl
  show Ledger.total (fun w => (Function.update b.inbox u (b.inbox u ++ [c]) w :
    Multiset Handoff)) = _
  rw [inbox_coe_update]
  exact Ledger.total_update_cons hnew

theorem queues_recv {b : Balance n} {u : Fin n} {c : Handoff} {rest : List Handoff}
    (h : b.inbox u = c :: rest) : c ::ₘ (b.recv u rest).queues = b.queues := by
  have hold : (b.inbox u : Multiset Handoff) = c ::ₘ rest := by rw [h]; rfl
  show c ::ₘ Ledger.total (fun w => (Function.update b.inbox u rest w : Multiset Handoff)) = _
  rw [inbox_coe_update]
  exact Ledger.cons_total_update hold

/-- A turn that leaves every connection where it is. -/
theorem custody_apply_same (hbag : t.worker.bag = (s.worker me).bag)
    (hinbox : t.balance.inbox = s.balance.inbox) : (s.apply me t).custody = s.custody := by
  have hqueues : (s.apply me t).balance.queues = s.balance.queues := by
    show t.balance.queues = _
    unfold Balance.queues
    rw [hinbox]
  rw [custody_eq, custody_eq, bags_apply_same hbag, hqueues]

/-- A turn in which the conversions succeed keeps every connection, and adds
the one it accepts. -/
theorem custody_apply (m : Move s me i t) (hconv : i.converts = true) :
    (s.apply me t).custody + Multiset.range s.accepted
      = s.custody + Multiset.range t.accepted := by
  cases m with
  | stay hbooks _ _ hbag => exact congrArg (· + _) (custody_apply_same hbag hbooks.inbox)
  | @accept w _ _ hbag =>
      have hgain : (s.apply me ⟨s.balance, s.accepted + 1, w⟩).custody
          = s.accepted ::ₘ s.custody := by
        rw [custody_eq, custody_eq, bags_apply_gain hbag, Multiset.cons_add]
        rfl
      show _ + _ = s.custody + Multiset.range (s.accepted + 1)
      rw [hgain, Multiset.range_succ, Multiset.cons_add, Multiset.add_cons]
  | reserve _ _ _ _ _ hbag => exact congrArg (· + _) (custody_apply_same hbag rfl)
  | release _ _ _ _ hbag => exact congrArg (· + _) (custody_apply_same hbag rfl)
  | lose _ hfail =>
      rw [hconv] at hfail
      cases hfail
  | serve _ _ _ _ hbag => exact congrArg (· + _) (custody_apply_same hbag rfl)
  | @send w u c _ _ _ hbag =>
      refine congrArg (· + _) ?_
      rw [custody_eq, custody_eq, ← bags_apply_give (t := ⟨s.balance.send u c, s.accepted, w⟩)
        hbag, Multiset.cons_add, ← Multiset.add_cons]
      exact congrArg (_ + ·) (queues_send s.balance u c)
  | @recv w c rest hinbox _ _ _ hbag =>
      refine congrArg (· + _) ?_
      rw [custody_eq, custody_eq, bags_apply_gain hbag, Multiset.cons_add, ← Multiset.add_cons]
      exact congrArg (_ + ·) (queues_recv hinbox)
  | retire _ _ _ _ hbag => exact congrArg (· + _) (custody_apply_same hbag rfl)
  | recount _ _ _ _ hbag => exact congrArg (· + _) (custody_apply_same hbag rfl)

/-- A connection that ends leaves its worker's tasks. -/
theorem bag_finish {w : Worker n} {c : Handoff} (hc : c ∈ w.live) :
    w.bag = c ::ₘ Worker.bag { w with live := w.live.erase c } := by
  have hlive : (w.live : Multiset Handoff) = c ::ₘ (w.live.erase c : List Handoff) :=
    Multiset.coe_eq_coe.mpr (List.perm_cons_erase hc)
  rw [Worker.bag, Worker.bag, hlive, Multiset.cons_add, Multiset.cons_add]

/-- What is in custody and what has finished is what was accepted. -/
def Accounted (s : Server n) : Prop :=
  s.custody + (s.finished : Multiset Handoff) = Multiset.range s.accepted

theorem accounted_apply (ac : Accounted s) (m : Move s me i t) (hconv : i.converts = true) :
    Accounted (s.apply me t) := by
  have hmove := custody_apply m hconv
  unfold Accounted at ac ⊢
  show (s.apply me t).custody + (s.finished : Multiset Handoff) = Multiset.range t.accepted
  rw [← ac, add_left_comm] at hmove
  exact add_left_cancel hmove

theorem accounted_finish (ac : Accounted s) (w : Fin n) (c : Handoff) :
    Accounted (s.finish w c) := by
  unfold Server.finish
  split
  · rename_i hc
    have hbags : c ::ₘ (s.apply w ⟨s.balance.release w, s.accepted,
        { s.worker w with live := (s.worker w).live.erase c }⟩).bags = s.bags :=
      bags_apply_give (bag_finish hc)
    unfold Accounted at ac ⊢
    rw [custody_eq, ← hbags] at ac
    rw [custody_eq, ← Multiset.cons_coe, Multiset.add_cons]
    rw [Multiset.cons_add, Multiset.cons_add] at ac
    exact ac
  · exact ac

theorem accounted_start (n : Nat) (maxConnections : UInt64) :
    Accounted (Server.start n maxConnections) := by
  have hbags : (Server.start n maxConnections).bags = 0 :=
    Ledger.total_eq_zero fun _ => rfl
  have hqueues : (Server.start n maxConnections).balance.queues = 0 :=
    Ledger.total_eq_zero fun _ => rfl
  rw [Accounted, custody_eq, hbags, hqueues]
  rfl

/-- `into_std` and `from_std` succeed, if this event calls them. -/
def Server.Event.converts : Server.Event n → Bool
  | .turn _ i => i.converts
  | _ => true

theorem accounted_step (o : Orderly s) (ac : Accounted s) {e : Server.Event n}
    (hconv : e.converts = true) : Accounted (s.step e) := by
  cases e with
  | signal => exact ac
  | finish w c => exact accounted_finish ac w c
  | turn w i => exact accounted_apply ac (turn_move o) hconv

theorem accounted_run (n : Nat) (maxConnections : UInt64) {es : List (Server.Event n)}
    (hconv : ∀ e ∈ es, e.converts = true) :
    Accounted ((Server.start n maxConnections).run es) := by
  refine And.right (run_induction (P := fun s : Server n => Orderly s ∧ Accounted s)
    ⟨orderly_start n maxConnections, accounted_start n maxConnections⟩ ?_)
  rintro s e he ⟨o, ac⟩
  exact ⟨orderly_step o e, accounted_step o ac (hconv e he)⟩

/-- A connection accounted for and not finished is in one place, once. -/
theorem sole_place (ac : Accounted s) {c : Handoff} (hc : c < s.accepted)
    (hfin : c ∉ s.finished) :
    ∃ p, (s.holds p).count c = 1 ∧ ∀ q, c ∈ s.holds q → q = p := by
  have hnodup : (s.custody + (s.finished : Multiset Handoff)).Nodup := by
    rw [ac]
    exact Multiset.nodup_range s.accepted
  have hmem : c ∈ s.custody := by
    have hall : c ∈ s.custody + (s.finished : Multiset Handoff) := by
      rw [ac]
      exact Multiset.mem_range.mpr hc
    exact (Multiset.mem_add.mp hall).resolve_right hfin
  obtain ⟨p, hp⟩ := Ledger.mem_total.mp hmem
  obtain ⟨hone, hsole⟩ := Ledger.sole_holder (Multiset.nodup_add.mp hnodup).1 hp
  exact ⟨p, by rw [← Multiset.coe_count]; exact hone, hsole⟩

/-- A finished connection is nowhere. -/
theorem nowhere_of_finished (ac : Accounted s) {c : Handoff} (hfin : c ∈ s.finished)
    (p : Place n) : c ∉ s.holds p := by
  have hnodup : (s.custody + (s.finished : Multiset Handoff)).Nodup := by
    rw [ac]
    exact Multiset.nodup_range s.accepted
  intro hp
  exact Multiset.disjoint_left.mp (Multiset.nodup_add.mp hnodup).2.2
    (Ledger.mem_total.mpr ⟨p, hp⟩) hfin

end Moving

/-! ## 3. `pending` and the tasks over one step -/

section Steps

variable {s : Server n} {me : Fin n} {i : Input}

/-- A turn leaves the connection in `pending`, or takes it out into the
worker's hands. -/
theorem turn_pending (o : Orderly s) {c : Handoff} (h : (s.worker me).pending = some c) :
    (s.turn me i).worker.pending = some c
      ∨ (s.turn me i).worker.pending = none ∧ (s.turn me i).worker.pc.hand = some c := by
  have hmay : (s.worker me).pc.mayHold = true := by
    by_contra hno
    rw [o.pending me (by simpa using hno)] at h
    cases h
  cases hpc : (s.worker me).pc with
  | top =>
      simp only [Server.turn, hpc]
      exact .inl h
  | held =>
      simp only [Server.turn, hpc, h]
      exact .inr ⟨rfl, rfl⟩
  | gate =>
      simp only [Server.turn, hpc, h]
      exact .inl h
  | parked =>
      simp only [Server.turn, hpc]
      refine .inl ?_
      cases i.branch with
      | freed =>
          simp only [Server.turnParked]
          split <;> exact h
      | recv =>
          simp only [Server.turnParked, Server.turnRecv]
          split <;> exact h
      | _ => exact h
  | adopting c' next =>
      cases next with
      | loop =>
          simp only [Server.turn, hpc]
          split <;> exact .inl h
      | routed r => rw [hpc] at hmay; cases hmay
      | drain => rw [hpc] at hmay; cases hmay
  | releasing u next =>
      cases next with
      | loop =>
          simp only [Server.turn, hpc]
          exact .inl h
      | routed r => rw [hpc] at hmay; cases hmay
      | drain => rw [hpc] at hmay; cases hmay
  | retire =>
      simp only [Server.turn, hpc]
      exact .inl h
  | close =>
      simp only [Server.turn, hpc]
      exact .inl h
  | drainHeld =>
      simp only [Server.turn, hpc, h]
      exact .inr ⟨rfl, rfl⟩
  | _ => rw [hpc] at hmay; cases hmay

theorem step_pending (o : Orderly s) (e : Server.Event n) {v : Fin n} {c : Handoff}
    (h : (s.worker v).pending = some c) :
    ((s.step e).worker v).pending = some c
      ∨ ((s.step e).worker v).pending = none ∧ ((s.step e).worker v).pc.hand = some c := by
  cases e with
  | signal => exact .inl h
  | finish w d => exact .inl ((finish_pending s w d v).trans h)
  | turn w i =>
      by_cases hv : v = w
      · subst hv
        rw [step_turn_self]
        exact turn_pending o h
      · rw [step_turn_other s i hv]
        exact .inl h

/-- A turn ends no task. -/
theorem live_subset {t : Turn n} (m : Move s me i t) {c : Handoff}
    (h : c ∈ (s.worker me).live) : c ∈ t.worker.live := by
  cases m with
  | stay _ _ hlive _ => exact hlive ▸ h
  | accept _ hlive _ => exact hlive ▸ h
  | reserve _ _ _ _ hlive _ => exact hlive ▸ h
  | release _ _ _ hlive _ => exact hlive ▸ h
  | lose _ _ _ hlive _ => exact hlive ▸ h
  | serve _ _ _ hlive _ => exact hlive ▸ List.mem_cons_of_mem _ h
  | send _ _ _ _ hlive _ => exact hlive ▸ h
  | recv _ _ _ _ _ hlive _ => exact hlive ▸ h
  | retire _ _ _ hlive _ => exact hlive ▸ h
  | recount _ _ _ hlive _ => exact hlive ▸ h

/-- A connection being served stays with its worker until it has finished. -/
theorem step_served (o : Orderly s) (e : Server.Event n) {v : Fin n} {c : Handoff}
    (h : c ∈ (s.worker v).live) :
    c ∈ ((s.step e).worker v).live ∨ c ∈ (s.step e).finished := by
  cases e with
  | signal => exact .inl h
  | finish w d =>
      show c ∈ ((s.finish w d).worker v).live ∨ c ∈ (s.finish w d).finished
      unfold Server.finish
      split
      · by_cases hd : c = d
        · exact .inr (by simp [hd])
        · refine .inl ?_
          show c ∈ (Function.update s.worker w _ v).live
          by_cases hv : v = w
          · subst hv
            rw [Function.update_self]
            exact (List.mem_erase_of_ne hd).mpr h
          · rw [Function.update_of_ne hv]
            exact h
      · exact .inl h
  | turn w i =>
      refine .inl ?_
      by_cases hv : v = w
      · subst hv
        rw [step_turn_self]
        exact live_subset (turn_move (i := i) o) h
      · rw [step_turn_other s i hv]
        exact h

end Steps

/-! ## 4. Nothing is lost -/

/-- In every interleaving in which `into_std` and `from_std` succeed: every
accepted connection that has not finished is in exactly one place, once, and a
finished one is in none; whatever happens next, a connection being served
stays with its worker until it has finished, and one held as `pending` stays
there or goes into that worker's hands; and when every worker has left its
drain loop, nothing is queued or held. -/
theorem nothing_lost_or_served_twice (n : Nat) (maxConnections : UInt64)
    (es : List (Server.Event n)) (hconv : ∀ e ∈ es, e.converts = true) :
    let s := (Server.start n maxConnections).run es
    (∀ c < s.accepted, c ∉ s.finished →
        ∃ p, (s.holds p).count c = 1 ∧ ∀ q, c ∈ s.holds q → q = p)
      ∧ (∀ c ∈ s.finished, ∀ p, c ∉ s.holds p)
      ∧ (∀ e v c, c ∈ (s.worker v).live →
          c ∈ ((s.step e).worker v).live ∨ c ∈ (s.step e).finished)
      ∧ (∀ e v c, (s.worker v).pending = some c →
          ((s.step e).worker v).pending = some c
            ∨ ((s.step e).worker v).pending = none
              ∧ ((s.step e).worker v).pc.hand = some c)
      ∧ ((∀ v, (s.worker v).pc = .left) →
          ∀ v, s.balance.inbox v = [] ∧ (s.worker v).pending = none) := by
  intro s
  have o : Orderly s := orderly_run n maxConnections es
  have ac : Accounted s := accounted_run n maxConnections hconv
  refine ⟨fun c hc hfin => sole_place ac hc hfin, fun c hc p => nowhere_of_finished ac hc p,
    fun e v c hc => step_served o e hc, fun e v c hc => step_pending o e hc, ?_⟩
  intro hleft v
  exact ⟨o.left v (hleft v), o.pending v (by rw [hleft v]; rfl)⟩

/-- The handoff of `handoffRun` is still queued when the server is stopped;
the second worker finds it in its drain loop. -/
def drainRun : List (Server.Event 2) :=
  handoffRun ++ .signal :: List.replicate 8 (.turn second (input .recv 0))
    ++ List.replicate 5 (.turn first (input .recv 0))

theorem nothing_lost_or_served_twice_drain :
    let s := (Server.start 2 0).run drainRun
    s.accepted = 2 ∧ s.finished = [] ∧ (s.worker 0).pc = .left ∧ (s.worker 1).pc = .left
      ∧ (s.worker 1).live = [1]
      ∧ (∃ p, (s.holds p).count 1 = 1 ∧ ∀ q, 1 ∈ s.holds q → q = p)
      ∧ ∀ v, s.balance.inbox v = [] ∧ (s.worker v).pending = none := by
  have hrun := nothing_lost_or_served_twice 2 0 drainRun (by decide)
  refine ⟨by decide, by decide, by decide, by decide, by decide,
    hrun.1 1 (by decide) (by decide), hrun.2.2.2.2 ?_⟩
  decide

end ArmatureH1.Workers
