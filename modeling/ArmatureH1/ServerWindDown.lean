/-
ArmatureH1.ServerWindDown — a server that is told to stop does stop.

Once the shutdown is signalled, a worker that comes to the top of its loop
leaves it, so it can go round only the part of the loop that it is in. Two
loops are in the way. `route` goes round as long as its sends fail, but a send
fails only on a worker that is retired, and none is picked again
(`ServerRetire`); so each round costs it one worker of those not yet retired.
And `reserve` goes round as long as its compare-exchange fails, but that fails
only when the count is not what the worker has seen, and then it sees what the
count is; so each round costs one change of the count by somebody else.

`Pc.cost` counts the turns that a worker still has in front of it, with what
is queued and the tasks beside it, and `Pc.stale` says who has seen a count
that has changed since. `turn_winds` is the case analysis: every turn lowers
the cost, or makes a stale worker see the count and nothing else, or does
nothing at all and says why. The run is `Descent.rests_done`.

What is assumed of a run: a compare-exchange that fails returns what the
counter holds, which is what the operation does; and a worker that has not
left is given turns in which its `select!` hears the signal and its
compare-exchange does not fail without cause.
-/
import ArmatureH1.ServerRetire
import ArmatureH1.Lib.Descent

namespace ArmatureH1.Workers

variable {n : Nat}

/-! ## 1. What is left to do -/

/-- The workers that are not retired. -/
def Balance.unretired (b : Balance n) : Finset (Fin n) :=
  Finset.univ.filter fun w => b.retired w = false

/-- One `place`, from the first load of `pick` on. -/
def placeCost (n : Nat) : Nat := 3 * n + 10

/-- One round of the loop of `route`, from one `place` to the next. -/
def roundCost (n : Nat) : Nat := placeCost n + 8

/-- A round for each worker in `o`. -/
def roundsCost (o : Finset (Fin n)) : Nat := o.card * roundCost n

/-- What is in front of a worker at the load before its `select!`s, when the
rounds of a `route` cost `x`. -/
def gateCost (n x : Nat) : Nat := n + placeCost n + x + 12

/-- Where the result of `route` is assigned: at the gate, or at the top. -/
def Route.cost (n x : Nat) : Route → Nat
  | held => gateCost n x
  | bounced => 8

/-- Where the worker goes on when the connection is placed. -/
def Errand.cost (n x : Nat) : Errand → Nat
  | accepted _ => 8
  | routing _ r => r.cost n x

def Next.cost (n x : Nat) : Next → Nat
  | loop => 8
  | routed r => r.cost n x
  | drain => 1

/-- The turns in front of a worker whose server is stopped, when `o` are the
workers that are not retired. A task and a queued connection are counted
where they are, not here. -/
def Pc.cost (o : Finset (Fin n)) : Pc n → Nat
  | left => 0
  | drain => 1
  | drainHeld | recount _ => 5
  | close => 6
  | retire => 7
  | top => 8
  | backoff => 9
  | parked => 12
  | adopting _ next => next.cost n (roundsCost o) + 3
  | releasing _ next => next.cost n (roundsCost o) + 1
  | accepting _ => placeCost n + roundsCost o + 9
  | arm => placeCost n + roundsCost o + 10
  | room rest => placeCost n + roundsCost o + rest.length + 11
  | gate => gateCost n (roundsCost o)
  | held => gateCost n (roundsCost o) + roundsCost o + placeCost n + 1
  | mine h => h.cost n (roundsCost o) + roundsCost o + placeCost n
  | probe h _ _ rest => h.cost n (roundsCost o) + roundsCost o + 2 * n + rest.length + 6
  | reserve h rest => h.cost n (roundsCost o) + roundsCost o + 2 * rest.length + 1
  | exchange h _ _ rest => h.cost n (roundsCost o) + roundsCost o + 2 * rest.length + 2
  -- with a slot on `w` in hand, `w` has had its round
  | placed h w => h.cost n (roundsCost o) + roundsCost (o.erase w) + placeCost n + 8
  | sending h w => h.cost n (roundsCost o) + roundsCost (o.erase w) + placeCost n + 7
  | refused h w => h.cost n (roundsCost o) + roundsCost (o.erase w) + placeCost n + 1

def Worker.cost (o : Finset (Fin n)) (w : Worker n) : Nat := w.pc.cost o + w.live.length

/-- All workers, with the connections that are queued between them. -/
def Server.cost (s : Server n) : Nat :=
  Ledger.total (fun w => (s.worker w).cost s.balance.unretired) + 5 * s.balance.queued

/-- The worker has seen a count that has changed since. -/
def Pc.stale (b : Balance n) : Pc n → Nat
  | exchange _ w seen _ => if seen = b.count w then 0 else 1
  | _ => 0

def Server.stale (s : Server n) : Nat :=
  Ledger.total fun w => (s.worker w).pc.stale s.balance

/-- What every step of a stopped server lowers, if it changes anything. -/
def Server.rank (s : Server n) : Nat := (n + 1) * s.cost + s.stale

/-! ## 2. Whether a worker can come to accept -/

def Route.ahead : Route → Nat
  | held => 1
  | bounced => 0

def Errand.ahead : Errand → Nat
  | accepted _ => 0
  | routing _ r => r.ahead

def Next.ahead : Next → Nat
  | routed r => r.ahead
  | loop | drain => 0

/-- The accepts in front of a worker before it looks at the signal again. -/
def Pc.ahead : Pc n → Nat
  | held | gate | room _ | arm | accepting _ => 1
  | mine h | probe h _ _ _ | reserve h _ | exchange h _ _ _ => h.ahead
  | placed h _ | sending h _ | refused h _ => h.ahead
  | adopting _ next | releasing _ next => next.ahead
  | _ => 0

/-- The accepts in front of all workers. -/
def Server.ahead (s : Server n) : Nat := Ledger.total fun w => (s.worker w).pc.ahead

/-! ## 3. The costs -/

section Costs

variable {o o' : Finset (Fin n)}

theorem roundsCost_mono (h : o' ⊆ o) : roundsCost o' ≤ roundsCost o :=
  Nat.mul_le_mul_right _ (Finset.card_le_card h)

/-- A worker that is not retired is worth a round. -/
theorem roundsCost_erase {w : Fin n} (hw : w ∈ o) :
    roundsCost (o.erase w) + roundCost n = roundsCost o := by
  unfold roundsCost
  rw [← Nat.succ_mul, ← Finset.card_erase_add_one hw]

theorem Route.cost_mono (r : Route) {x x' : Nat} (h : x' ≤ x) : r.cost n x' ≤ r.cost n x := by
  cases r with
  | held =>
      show n + placeCost n + x' + 12 ≤ n + placeCost n + x + 12
      omega
  | bounced => exact Nat.le_refl _

theorem Errand.cost_mono (e : Errand) {x x' : Nat} (h : x' ≤ x) : e.cost n x' ≤ e.cost n x := by
  cases e with
  | accepted c => exact Nat.le_refl _
  | routing c r => exact r.cost_mono h

theorem Next.cost_mono (next : Next) {x x' : Nat} (h : x' ≤ x) :
    next.cost n x' ≤ next.cost n x := by
  cases next with
  | loop => exact Nat.le_refl _
  | routed r => exact r.cost_mono h
  | drain => exact Nat.le_refl _

/-- A worker has no more in front of it when another is retired. -/
theorem Pc.cost_mono (h : o' ⊆ o) (pc : Pc n) : pc.cost o' ≤ pc.cost o := by
  have hrounds := roundsCost_mono h
  cases pc with
  | adopting c next => exact Nat.add_le_add_right (next.cost_mono hrounds) 3
  | releasing w next => exact Nat.add_le_add_right (next.cost_mono hrounds) 1
  | accepting armed => simp only [Pc.cost]; omega
  | arm => simp only [Pc.cost]; omega
  | room rest => simp only [Pc.cost]; omega
  | gate => simp only [Pc.cost, gateCost]; omega
  | held => simp only [Pc.cost, gateCost]; omega
  | mine e =>
      have herrand := e.cost_mono (n := n) hrounds
      simp only [Pc.cost]
      omega
  | probe e _ _ rest =>
      have herrand := e.cost_mono (n := n) hrounds
      simp only [Pc.cost]
      omega
  | reserve e rest =>
      have herrand := e.cost_mono (n := n) hrounds
      simp only [Pc.cost]
      omega
  | exchange e _ _ rest =>
      have herrand := e.cost_mono (n := n) hrounds
      simp only [Pc.cost]
      omega
  | placed e w =>
      have herrand := e.cost_mono (n := n) hrounds
      have herase := roundsCost_mono (Finset.erase_subset_erase w h)
      simp only [Pc.cost]
      omega
  | sending e w =>
      have herrand := e.cost_mono (n := n) hrounds
      have herase := roundsCost_mono (Finset.erase_subset_erase w h)
      simp only [Pc.cost]
      omega
  | refused e w =>
      have herrand := e.cost_mono (n := n) hrounds
      have herase := roundsCost_mono (Finset.erase_subset_erase w h)
      simp only [Pc.cost]
      omega
  | _ => exact Nat.le_refl _

/-- `route` has returned. -/
@[simp] theorem cost_routed (w : Worker n) (back : Option Handoff) (r : Route) :
    (w.routed back r).pc.cost o = r.cost n (roundsCost o) := by cases r <;> rfl

@[simp] theorem cost_resume (w : Worker n) (next : Next) :
    (w.resume next).pc.cost o = next.cost n (roundsCost o) := by
  cases next with
  | loop => rfl
  | routed r => exact cost_routed w none r
  | drain => rfl

@[simp] theorem ahead_routed (w : Worker n) (back : Option Handoff) (r : Route) :
    (w.routed back r).pc.ahead = r.ahead := by cases r <;> rfl

@[simp] theorem ahead_resume (w : Worker n) (next : Next) :
    (w.resume next).pc.ahead = next.ahead := by
  cases next with
  | loop => rfl
  | routed r => exact ahead_routed w none r
  | drain => rfl

theorem Errand.cost_bounce (h : Errand) (x : Nat) : h.bounce.cost n x = h.cost n x := by
  cases h <;> rfl

theorem Errand.ahead_bounce (h : Errand) : h.bounce.ahead = h.ahead := by
  cases h <;> rfl

theorem length_probes (me : Fin n) (rng : UInt64) : (probes me rng).1.length ≤ n + 3 := by
  have hsamples : ∀ k rng, (samples me k rng).1.length = k := by
    intro k
    induction k with
    | zero => exact fun _ => rfl
    | succ k ih => exact fun rng => congrArg Nat.succ (ih _)
  unfold probes
  split
  · rw [List.length_finRange]
    omega
  · rw [hsamples]
    exact Nat.le_add_left _ _

theorem length_candidates (me target : Fin n) : (candidates me target).length ≤ n + 2 := by
  unfold candidates
  rw [List.length_append, List.length_cons, List.length_finRange]
  split
  · exact Nat.le_trans (Nat.le_of_eq (Nat.zero_add _)) (Nat.le_succ _)
  · rw [List.length_singleton]
    omega

end Costs

/-! ## 4. One turn -/

/-- A compare-exchange that fails returns what the counter holds. -/
def Server.atomic (s : Server n) : Server.Event n → Bool
  | .turn me i =>
    match (s.worker me).pc with
    | .exchange _ w _ _ => i.seen == s.balance.count w
    | _ => true
  | _ => true

/-- Why a turn may do nothing: the worker has left, the branch of its
`select!` is not the signal's, or its compare-exchange has failed for
nothing. -/
def Idle (s : Server n) (me : Fin n) (i : Input) : Prop :=
  (s.worker me).pc = .left ∨ (∀ gone, i.branch ≠ .changed gone) ∨ i.spurious = true

/-- What a turn does to a stopped server. -/
inductive Winds (s : Server n) (me : Fin n) (i : Input) (t : Turn n) : Prop where
  /-- It is a turn less. -/
  | onward (hcost : t.worker.cost s.balance.unretired + 5 * t.balance.queued
        < (s.worker me).cost s.balance.unretired + 5 * s.balance.queued)
      (hahead : t.accepted + t.worker.pc.ahead ≤ s.accepted + (s.worker me).pc.ahead)
  /-- The worker sees what the count is now. -/
  | again {h : Errand} {w : Fin n} {seen : UInt64} {rest : List (Fin n)}
      (hpc : (s.worker me).pc = .exchange h w seen rest) (hstale : seen ≠ s.balance.count w)
      (hturn : t = s.own ((s.worker me).goto (.exchange h w (s.balance.count w) rest)))
  | idle (hturn : t = s.own (s.worker me)) (hwhy : Idle s me i)

section Turns

variable {s : Server n} {me : Fin n} {i : Input}

/-- A turn that moves the worker on and leaves queues and tasks alone. -/
theorem Winds.moved {pc : Pc n} (hpc : (s.worker me).pc = pc) {b : Balance n} {w : Worker n}
    (hqueues : b.inbox = s.balance.inbox) (hlive : w.live = (s.worker me).live)
    (hcost : w.pc.cost s.balance.unretired < pc.cost s.balance.unretired)
    (hahead : w.pc.ahead ≤ pc.ahead) : Winds s me i ⟨b, s.accepted, w⟩ := by
  subst hpc
  refine .onward ?_ (Nat.add_le_add_left hahead _)
  have hqueued : b.queued = s.balance.queued := by
    unfold Balance.queued Balance.queues
    rw [hqueues]
  show w.pc.cost _ + w.live.length + 5 * b.queued < _
  rw [hqueued, hlive]
  unfold Worker.cost
  omega

/-- The same for one that becomes a task of the worker. -/
theorem Winds.served {pc : Pc n} (hpc : (s.worker me).pc = pc) {w : Worker n} {c : Handoff}
    (hlive : w.live = c :: (s.worker me).live)
    (hcost : w.pc.cost s.balance.unretired + 1 < pc.cost s.balance.unretired)
    (hahead : w.pc.ahead ≤ pc.ahead) : Winds s me i (s.own w) := by
  subst hpc
  refine .onward ?_ (Nat.add_le_add_left hahead _)
  show w.pc.cost _ + w.live.length + 5 * s.balance.queued < _
  rw [hlive, List.length_cons]
  unfold Worker.cost
  omega

theorem turnRecv_winds {pc : Pc n} (hpc : (s.worker me).pc = pc)
    (hcost : 7 ≤ pc.cost s.balance.unretired) (hbranch : i.branch = .recv) :
    Winds s me i (s.turnRecv me) := by
  unfold Server.turnRecv
  split
  · refine .idle rfl (.inr (.inl fun gone => ?_))
    rw [hbranch]
    rintro ⟨⟩
  · rename_i c rest hinbox
    subst hpc
    refine .onward ?_ (Nat.le_add_right _ _)
    have hqueued := queued_recv hinbox
    show 8 + 3 + (s.worker me).live.length + 5 * (s.balance.recv me rest).queued < _
    unfold Worker.cost
    omega

/-- The signal is heard. -/
theorem turnChanged_winds (hstop : s.shutdown = true) {pc : Pc n} (hpc : (s.worker me).pc = pc)
    (hcost : 7 < pc.cost s.balance.unretired) (gone : Bool) :
    Winds s me i (s.turnChanged me gone) := by
  have hleaves : s.turnChanged me gone = s.own ((s.worker me).goto .retire) := by
    simp only [Server.turnChanged, hstop, Bool.or_true, if_true]
  rw [hleaves]
  exact .moved hpc rfl rfl hcost (Nat.zero_le _)

theorem turnParked_winds (hstop : s.shutdown = true) (hpc : (s.worker me).pc = .parked) :
    Winds s me i (s.turnParked me i.branch) := by
  have hcost : ∀ k, k ≤ 11 → k < (Pc.parked : Pc n).cost s.balance.unretired :=
    fun k hk => Nat.lt_succ_of_le hk
  cases hbranch : i.branch with
  | changed gone => exact turnChanged_winds hstop hpc (hcost 7 (by decide)) gone
  | freed =>
      simp only [Server.turnParked]
      split
      · exact .moved hpc rfl rfl (hcost 8 (by decide)) (Nat.le_refl _)
      · exact .idle rfl (.inr (.inl fun gone => by rw [hbranch]; rintro ⟨⟩))
  | recv => exact turnRecv_winds hpc (hcost 6 (by decide)) hbranch
  | sleep => exact .moved hpc rfl rfl (hcost 8 (by decide)) (Nat.le_refl _)
  | accept => exact .idle rfl (.inr (.inl fun gone => by rw [hbranch]; rintro ⟨⟩))
  | acceptError pause => exact .idle rfl (.inr (.inl fun gone => by rw [hbranch]; rintro ⟨⟩))

theorem turnAccepting_winds (hstop : s.shutdown = true) {armed : Bool}
    (hpc : (s.worker me).pc = .accepting armed) :
    Winds s me i (s.turnAccepting me armed i.branch) := by
  have hcost : ∀ k, k ≤ 18 →
      k < (Pc.accepting armed : Pc n).cost s.balance.unretired := by
    intro k hk
    simp only [Pc.cost, placeCost]
    omega
  cases hbranch : i.branch with
  | changed gone => exact turnChanged_winds hstop hpc (hcost 7 (by decide)) gone
  | freed => exact .idle rfl (.inr (.inl fun gone => by rw [hbranch]; rintro ⟨⟩))
  | recv => exact turnRecv_winds hpc (hcost 6 (by decide)) hbranch
  | sleep =>
      simp only [Server.turnAccepting]
      split
      · exact .moved hpc rfl rfl (hcost 8 (by decide)) (Nat.zero_le _)
      · exact .idle rfl (.inr (.inl fun gone => by rw [hbranch]; rintro ⟨⟩))
  | accept =>
      simp only [Server.turnAccepting]
      refine .onward ?_ ?_
      · rw [Worker.cost, Worker.cost, hpc]
        simp only [goto_pc, goto_live, Pc.cost, Errand.cost]
        omega
      · rw [hpc]
        exact Nat.le_refl _
  | acceptError pause =>
      cases pause with
      | true => exact .moved hpc rfl rfl (hcost 9 (by decide)) (Nat.zero_le _)
      | false => exact .moved hpc rfl rfl (hcost 8 (by decide)) (Nat.zero_le _)

/-- `place` has found no room. -/
theorem turnNowhere_winds {h : Errand} (hpc : (s.worker me).pc = .reserve h []) :
    Winds s me i (s.turnNowhere me i h) := by
  cases h with
  | accepted c =>
      simp only [Server.turnNowhere]
      have hcost : 8 < (Pc.reserve (.accepted c) [] : Pc n).cost s.balance.unretired := by
        simp only [Pc.cost, Errand.cost, List.length_nil]
        omega
      split
      · exact .moved hpc rfl rfl hcost (Nat.le_refl _)
      · exact .moved hpc rfl rfl hcost (Nat.le_refl _)
  | routing c r =>
      refine .moved hpc rfl (routed_live ..) ?_ (Nat.le_of_eq (ahead_routed ..))
      rw [cost_routed]
      simp only [Pc.cost, Errand.cost, List.length_nil]
      omega

/-- `place` has found a worker. -/
theorem turnPlaced_winds {h : Errand} {w : Fin n} (hpc : (s.worker me).pc = .placed h w) :
    Winds s me i (s.turnPlaced me i w h) := by
  cases h with
  | accepted c =>
      simp only [Server.turnPlaced]
      split
      · refine .served (c := c) hpc rfl ?_ (Nat.le_refl _)
        simp only [goto_pc, Pc.cost, Errand.cost, placeCost]
        omega
      · split
        · exact .moved hpc rfl rfl (Nat.lt_succ_self _) (Nat.le_refl _)
        · refine .moved hpc rfl rfl ?_ (Nat.le_refl _)
          simp only [goto_pc, Pc.cost, Next.cost, Errand.cost]
          omega
  | routing c r =>
      simp only [Server.turnPlaced]
      split
      · refine .moved hpc rfl rfl ?_ (Nat.le_refl _)
        simp only [goto_pc, Pc.cost, Next.cost, Errand.cost]
        omega
      · exact .moved hpc rfl rfl (Nat.lt_succ_self _) (Nat.le_refl _)

/-- The send has succeeded: the turns that the queued connection takes are its
receiver's. -/
theorem send_winds {h : Errand} {w : Fin n} (hpc : (s.worker me).pc = .sending h w) :
    Winds s me i (s.shared (s.balance.send w h.conn) (Server.afterSend (s.worker me) h)) := by
  have hqueued := queued_send s.balance w h.conn
  refine .onward ?_ ?_
  · have hcost : (Server.afterSend (s.worker me) h).pc.cost s.balance.unretired
        = h.cost n (roundsCost s.balance.unretired) := by
      cases h with
      | accepted c => rfl
      | routing c r => exact cost_routed _ none r
    have hlive : (Server.afterSend (s.worker me) h).live = (s.worker me).live := by
      cases h with
      | accepted c => rfl
      | routing c r => exact routed_live _ none r
    simp only [Server.shared]
    rw [Worker.cost, Worker.cost, hcost, hlive, hpc]
    simp only [Pc.cost]
    omega
  · rw [hpc]
    refine Nat.add_le_add_left (Nat.le_of_eq ?_) _
    cases h with
    | accepted c => rfl
    | routing c r => exact ahead_routed _ none r

/-- The send has failed. The worker it was for is not one of those that cost a
round, so a round has been spent on it. -/
theorem refused_winds (o : Orderly s) {h : Errand} {w : Fin n}
    (hpc : (s.worker me).pc = .refused h w) :
    Winds s me i (s.shared (s.balance.retire w) ((s.worker me).goto (.mine h.bounce))) := by
  have hgone : w ∉ s.balance.unretired := by
    rw [Balance.unretired, Finset.mem_filter, (refused_target o hpc).1]
    rintro ⟨-, ⟨⟩⟩
  refine .moved hpc rfl rfl ?_ (Nat.le_of_eq h.ahead_bounce)
  simp only [goto_pc, Pc.cost, h.cost_bounce, Finset.erase_eq_of_notMem hgone]
  omega

/-- The compare-exchange. -/
theorem exchange_winds (su : AllSunk s) (ro : Roomy s) {h : Errand} {w : Fin n} {seen : UInt64}
    {rest : List (Fin n)} (hpc : (s.worker me).pc = .exchange h w seen rest)
    (hatomic : i.seen = s.balance.count w) : Winds s me i (s.turn me i) := by
  simp only [Server.turn, hpc]
  split
  · rename_i hroom
    split
    · rename_i hok
      -- who has room is not retired
      have hmem : w ∈ s.balance.unretired := by
        rw [Balance.unretired, Finset.mem_filter]
        refine ⟨Finset.mem_univ w, ?_⟩
        by_contra hretired
        exact (su w (by simpa using hretired)).full ro (hok.1 ▸ hroom)
      have hround := roundsCost_erase hmem
      refine .moved hpc rfl rfl ?_ (Nat.le_refl _)
      simp only [goto_pc, Pc.cost]
      unfold roundCost at hround
      omega
    · rename_i hfailed
      rw [hatomic]
      by_cases hseen : seen = s.balance.count w
      · refine .idle ?_ (.inr (.inr ?_))
        · rw [← hseen, ← hpc]
          rfl
        · by_contra hspurious
          exact hfailed ⟨hseen.symm, by simpa using hspurious⟩
      · exact .again hpc hseen rfl
  · refine .moved hpc rfl rfl ?_ (Nat.le_refl _)
    exact Nat.lt_succ_self _

/-- **Every turn of a stopped server** is a turn less, or makes a stale worker
see the count, or does nothing. -/
theorem turn_winds (o : Orderly s) (su : AllSunk s) (ro : Roomy s) (hstop : s.shutdown = true)
    (hatomic : s.atomic (.turn me i) = true) : Winds s me i (s.turn me i) := by
  cases hpc : (s.worker me).pc with
  | top =>
      have hleaves : s.turn me i = s.own ((s.worker me).goto .retire) := by
        simp only [Server.turn, hpc, hstop, if_true]
      rw [hleaves]
      exact .moved hpc rfl rfl (Nat.lt_succ_self _) (Nat.le_refl _)
  | held =>
      simp only [Server.turn, hpc]
      split
      · refine .moved hpc rfl rfl ?_ (Nat.le_refl _)
        simp only [goto_pc, Pc.cost]
        omega
      · refine .moved hpc rfl rfl ?_ (Nat.le_refl _)
        simp only [Pc.cost, Errand.cost, Route.cost]
        omega
  | gate =>
      simp only [Server.turn, hpc]
      split
      · refine .moved hpc rfl rfl ?_ (Nat.zero_le _)
        simp only [goto_pc, Pc.cost, gateCost, placeCost]
        omega
      · refine .moved hpc rfl rfl ?_ ?_
        · rw [goto_pc]
          split
          · simp only [Pc.cost, gateCost, List.length_finRange]
            omega
          · simp only [Pc.cost, gateCost]
            omega
        · rw [goto_pc]
          split <;> exact Nat.le_refl _
  | room rest =>
      cases rest with
      | nil =>
          simp only [Server.turn, hpc]
          refine .moved hpc rfl rfl ?_ (Nat.zero_le _)
          simp only [goto_pc, Pc.cost, placeCost]
          omega
      | cons _ rest =>
          simp only [Server.turn, hpc]
          refine .moved hpc rfl rfl ?_ ?_
          · rw [goto_pc]
            split
            · simp only [Pc.cost, List.length_cons]
              omega
            · simp only [Pc.cost, List.length_cons]
              omega
          · rw [goto_pc]
            split <;> exact Nat.le_refl _
  | parked =>
      simp only [Server.turn, hpc]
      exact turnParked_winds hstop hpc
  | arm =>
      simp only [Server.turn, hpc]
      exact .moved hpc rfl rfl (Nat.lt_succ_self _) (Nat.le_refl _)
  | accepting armed =>
      simp only [Server.turn, hpc]
      exact turnAccepting_winds hstop hpc
  | backoff =>
      simp only [Server.turn, hpc]
      exact .moved hpc rfl rfl (Nat.lt_succ_self _) (Nat.le_refl _)
  | mine h =>
      simp only [Server.turn, hpc]
      split
      · have hlen := length_candidates me me
        refine .moved hpc rfl rfl ?_ (Nat.le_refl _)
        simp only [goto_pc, Pc.cost, placeCost]
        omega
      · have hlen := length_probes me (s.worker me).rng
        refine .moved hpc rfl rfl ?_ (Nat.le_refl _)
        simp only [Pc.cost, placeCost]
        omega
  | probe h mine best rest =>
      cases rest with
      | nil =>
          simp only [Server.turn, hpc]
          have hlen := length_candidates me (best.choose me mine)
          refine .moved hpc rfl rfl ?_ (Nat.le_refl _)
          simp only [goto_pc, Pc.cost, List.length_nil]
          omega
      | cons p rest =>
          simp only [Server.turn, hpc]
          refine .moved hpc rfl rfl ?_ (Nat.le_refl _)
          simp only [goto_pc, Pc.cost, List.length_cons]
          omega
  | reserve h rest =>
      cases rest with
      | nil =>
          simp only [Server.turn, hpc]
          exact turnNowhere_winds hpc
      | cons w rest =>
          simp only [Server.turn, hpc]
          refine .moved hpc rfl rfl ?_ (Nat.le_refl _)
          simp only [goto_pc, Pc.cost, List.length_cons]
          omega
  | exchange h w seen rest =>
      simp only [Server.atomic, hpc, beq_iff_eq] at hatomic
      exact exchange_winds su ro hpc hatomic
  | placed h w =>
      simp only [Server.turn, hpc]
      exact turnPlaced_winds hpc
  | sending h w =>
      simp only [Server.turn, hpc]
      split
      · refine .moved hpc rfl rfl ?_ (Nat.le_refl _)
        simp only [goto_pc, Pc.cost]
        omega
      · exact send_winds hpc
  | refused h w =>
      simp only [Server.turn, hpc]
      exact refused_winds o hpc
  | adopting c next =>
      simp only [Server.turn, hpc]
      split
      · refine .served (c := c) hpc (resume_live ..) ?_ (Nat.le_of_eq (ahead_resume ..))
        rw [cost_resume]
        simp only [Pc.cost]
        omega
      · refine .moved hpc rfl rfl ?_ (Nat.le_refl _)
        simp only [goto_pc, Pc.cost]
        omega
  | releasing w next =>
      simp only [Server.turn, hpc]
      refine .moved hpc rfl (resume_live ..) ?_ (Nat.le_of_eq (ahead_resume ..))
      rw [cost_resume]
      exact Nat.lt_succ_self _
  | retire =>
      simp only [Server.turn, hpc]
      exact .moved hpc rfl rfl (Nat.lt_succ_self _) (Nat.le_refl _)
  | close =>
      simp only [Server.turn, hpc]
      exact .moved hpc rfl rfl (Nat.lt_succ_self _) (Nat.le_refl _)
  | drainHeld =>
      simp only [Server.turn, hpc]
      split
      · have hcost : 1 < 5 := by decide
        exact .moved hpc rfl rfl hcost (Nat.le_refl _)
      · exact .moved hpc rfl rfl (Nat.lt_succ_self _) (Nat.le_refl _)
  | drain =>
      have hclosed : s.balance.closed me = true := by
        rw [o.closed me, hpc]
        rfl
      simp only [Server.turn, hpc]
      split
      · rw [if_pos hclosed]
        exact .moved hpc rfl rfl (Nat.lt_succ_self _) (Nat.le_refl _)
      · rename_i c rest hinbox
        have hqueued := queued_recv hinbox
        refine .onward ?_ ?_
        · simp only [Server.shared]
          rw [Worker.cost, Worker.cost, hpc]
          simp only [goto_pc, goto_live, Pc.cost]
          omega
        · rw [hpc]
          exact Nat.le_refl _
  | recount c =>
      simp only [Server.turn, hpc]
      exact .moved hpc rfl rfl (Nat.lt_succ_self _) (Nat.le_refl _)
  | left =>
      simp only [Server.turn, hpc]
      exact .idle rfl (.inl hpc)

end Turns

/-! ## 5. One step -/

section Steps

variable {s : Server n} {me : Fin n} {i : Input}

theorem mem_unretired {b : Balance n} {w : Fin n} : w ∈ b.unretired ↔ b.retired w = false := by
  simp [Balance.unretired]

theorem unretired_step (o : Orderly s) (e : Server.Event n) :
    (s.step e).balance.unretired ⊆ s.balance.unretired := by
  intro w hw
  rw [mem_unretired] at hw ⊢
  by_contra hretired
  rw [retired_step o e (by simpa using hretired)] at hw
  cases hw

theorem stale_le (b : Balance n) (pc : Pc n) : pc.stale b ≤ 1 := by
  cases pc with
  | exchange h w seen rest =>
      show (if seen = b.count w then 0 else 1) ≤ 1
      split <;> omega
  | _ => exact Nat.zero_le _

theorem Pc.ahead_le (pc : Pc n) : pc.ahead ≤ 1 := by
  have hroute : ∀ r : Route, r.ahead ≤ 1 := by
    intro r
    cases r <;> decide
  have herrand : ∀ h : Errand, h.ahead ≤ 1 := by
    intro h
    cases h with
    | accepted c => exact Nat.zero_le _
    | routing c r => exact hroute r
  have hnext : ∀ next : Next, next.ahead ≤ 1 := by
    intro next
    cases next with
    | routed r => exact hroute r
    | _ => exact Nat.zero_le _
  cases pc with
  | mine h => exact herrand h
  | probe h _ _ _ => exact herrand h
  | reserve h _ => exact herrand h
  | exchange h _ _ _ => exact herrand h
  | placed h _ => exact herrand h
  | sending h _ => exact herrand h
  | refused h _ => exact herrand h
  | adopting _ next => exact hnext next
  | releasing _ next => exact hnext next
  | held => exact Nat.le_refl _
  | gate => exact Nat.le_refl _
  | room _ => exact Nat.le_refl _
  | arm => exact Nat.le_refl _
  | accepting _ => exact Nat.le_refl _
  | _ => exact Nat.zero_le _

/-- What is at most one for each worker is at most `n` for all. -/
theorem total_le {f : Fin n → Nat} (h : ∀ w, f w ≤ 1) : Ledger.total f ≤ n := by
  have hsum : Ledger.total f ≤ ∑ _w : Fin n, 1 := Finset.sum_le_sum fun w _ => h w
  simpa using hsum

theorem apply_own_self (s : Server n) (me : Fin n) : s.apply me (s.own (s.worker me)) = s := by
  simp only [Server.apply, Server.own, Function.update_eq_self]

/-- All workers cost less when one of them does, also when some are retired. -/
theorem cost_lt (me : Fin n) {b : Balance n} {w : Worker n}
    (hretired : b.unretired ⊆ s.balance.unretired)
    (hless : w.cost s.balance.unretired + 5 * b.queued
      < (s.worker me).cost s.balance.unretired + 5 * s.balance.queued) :
    Ledger.total (fun v => (Function.update s.worker me w v).cost b.unretired) + 5 * b.queued
      < s.cost := by
  have hmono : Ledger.total (fun v => (Function.update s.worker me w v).cost b.unretired)
      ≤ Ledger.total fun v => (Function.update s.worker me w v).cost s.balance.unretired :=
    Finset.sum_le_sum fun v _ => Nat.add_le_add_right (Pc.cost_mono hretired _) _
  have hput : (fun v => (Function.update s.worker me w v).cost s.balance.unretired)
      = Function.update (fun v => (s.worker v).cost s.balance.unretired) me
          (w.cost s.balance.unretired) := by
    funext v
    exact Function.apply_update (fun _ (u : Worker n) => u.cost s.balance.unretired) s.worker me w v
  have hsum := Ledger.total_update (fun v => (s.worker v).cost s.balance.unretired) me
    (w.cost s.balance.unretired)
  rw [← hput] at hsum
  unfold Server.cost
  omega

theorem rank_lt_of_cost {s' : Server n} (h : s'.cost < s.cost) : s'.rank < s.rank :=
  Descent.weigh (.inl h) (total_le fun _ => stale_le _ _)

/-- A worker that sees the count is stale no longer, and nothing else has
changed. -/
theorem rank_again {h : Errand} {w : Fin n} {seen : UInt64} {rest : List (Fin n)}
    (hpc : (s.worker me).pc = .exchange h w seen rest) (hstale : seen ≠ s.balance.count w) :
    (s.apply me (s.own ((s.worker me).goto (.exchange h w (s.balance.count w) rest)))).rank
      < s.rank := by
  generalize hw' : (s.worker me).goto (.exchange h w (s.balance.count w) rest) = w'
  refine Descent.weigh (.inr ⟨?_, ?_⟩) (total_le fun _ => stale_le _ _)
  · have hcost : ∀ v, (Function.update s.worker me w' v).cost s.balance.unretired
        = (s.worker v).cost s.balance.unretired := by
      refine update_worker (fun u => u.cost s.balance.unretired) ?_
      subst hw'
      rw [Worker.cost, Worker.cost, hpc]
      rfl
    show Ledger.total (fun v => (Function.update s.worker me w' v).cost s.balance.unretired)
      + 5 * s.balance.queued = _
    rw [funext hcost]
    rfl
  · have hput : (fun v => (Function.update s.worker me w' v).pc.stale s.balance)
        = Function.update (fun v => (s.worker v).pc.stale s.balance) me
          (w'.pc.stale s.balance) := by
      funext v
      exact Function.apply_update (fun _ (u : Worker n) => u.pc.stale s.balance) s.worker me w' v
    have hsum := Ledger.total_update (fun v => (s.worker v).pc.stale s.balance) me
      (w'.pc.stale s.balance)
    have hnow : w'.pc.stale s.balance = 0 := by
      subst hw'
      exact if_pos rfl
    have hthen : (s.worker me).pc.stale s.balance = 1 := by
      rw [hpc]
      exact if_neg hstale
    show Ledger.total (fun v => (Function.update s.worker me w' v).pc.stale s.balance) < s.stale
    rw [hput]
    unfold Server.stale
    omega

theorem finish_winds (s : Server n) (w : Fin n) (c : Handoff) :
    s.finish w c = s ∨ (s.finish w c).rank < s.rank := by
  unfold Server.finish
  split
  · rename_i hc
    refine .inr (rank_lt_of_cost ?_)
    have hlen : ((s.worker w).live.erase c).length < (s.worker w).live.length := by
      rw [List.length_erase_of_mem hc]
      exact Nat.sub_lt (List.length_pos_of_mem hc) Nat.one_pos
    refine cost_lt w (Finset.Subset.refl s.balance.unretired) ?_
    exact Nat.add_lt_add_right (Nat.add_lt_add_left hlen _) _
  · exact .inl rfl

/-- **A step of a stopped server** changes nothing or lowers the rank. -/
theorem step_winds (o : Orderly s) (su : AllSunk s) (ro : Roomy s) (hstop : s.shutdown = true)
    {e : Server.Event n} (hatomic : s.atomic e = true) :
    s.step e = s ∨ (s.step e).rank < s.rank := by
  cases e with
  | signal =>
      refine .inl ?_
      show { s with shutdown := true } = s
      rw [← hstop]
  | finish w c => exact finish_winds s w c
  | turn me i =>
      cases turn_winds o su ro hstop hatomic with
      | onward hcost _ =>
          exact .inr (rank_lt_of_cost (cost_lt me (unretired_step o (.turn me i)) hcost))
      | again hpc hstale hturn =>
          refine .inr ?_
          show (s.apply me (s.turn me i)).rank < _
          rw [hturn]
          exact rank_again hpc hstale
      | idle hturn _ =>
          refine .inl ?_
          show s.apply me (s.turn me i) = s
          rw [hturn, apply_own_self]

/-- A worker that has not left is moved by a turn in which its `select!` hears
the signal and its compare-exchange does not fail for nothing. -/
theorem turn_moves (o : Orderly s) (su : AllSunk s) (ro : Roomy s) (hstop : s.shutdown = true)
    (hatomic : s.atomic (.turn me i) = true) (hin : (s.worker me).pc ≠ .left) {gone : Bool}
    (hsignal : i.branch = .changed gone) (hspurious : i.spurious = false) :
    s.step (.turn me i) ≠ s := by
  intro hsame
  have hself := congrArg (fun s' => Server.rank s') hsame
  cases turn_winds o su ro hstop hatomic with
  | onward hcost _ =>
      have hworker : (s.turn me i).worker = s.worker me := by
        rw [← step_turn_self, hsame]
      have hbalance : (s.turn me i).balance = s.balance := congrArg Server.balance hsame
      rw [hworker, hbalance] at hcost
      exact Nat.lt_irrefl _ hcost
  | again hpc hstale hturn =>
      have hless := rank_again hpc hstale
      rw [← hturn] at hless
      exact Nat.ne_of_lt hless hself
  | idle _ hwhy =>
      rcases hwhy with hleft | hbranch | hfails
      · exact hin hleft
      · exact hbranch gone hsignal
      · rw [hspurious] at hfails
        cases hfails

/-- Who accepts goes past the signal before it accepts again. -/
theorem step_ahead (o : Orderly s) (su : AllSunk s) (ro : Roomy s) (hstop : s.shutdown = true)
    {e : Server.Event n} (hatomic : s.atomic e = true) :
    (s.step e).accepted + (s.step e).ahead ≤ s.accepted + s.ahead := by
  cases e with
  | signal => exact Nat.le_refl _
  | finish w c =>
      have hpcs : (s.finish w c).ahead = s.ahead := by
        unfold Server.ahead
        simp only [finish_pc]
      have haccepted : (s.finish w c).accepted = s.accepted := by
        unfold Server.finish
        split <;> rfl
      show (s.finish w c).accepted + (s.finish w c).ahead ≤ _
      rw [hpcs, haccepted]
  | turn me i =>
      have hput : (fun v => ((s.step (.turn me i)).worker v).pc.ahead)
          = Function.update (fun v => (s.worker v).pc.ahead) me (s.turn me i).worker.pc.ahead := by
        funext v
        exact Function.apply_update (fun _ (u : Worker n) => u.pc.ahead) s.worker me _ v
      have hsum := Ledger.total_update (fun v => (s.worker v).pc.ahead) me
        (s.turn me i).worker.pc.ahead
      rw [← hput] at hsum
      have hturn : (s.turn me i).accepted + (s.turn me i).worker.pc.ahead
          ≤ s.accepted + (s.worker me).pc.ahead := by
        cases turn_winds o su ro hstop hatomic with
        | onward _ hahead => exact hahead
        | again hpc _ hturn =>
            rw [hturn, hpc]
            exact Nat.le_refl _
        | idle hturn _ =>
            rw [hturn]
            exact Nat.le_refl _
      show (s.turn me i).accepted + _ ≤ _
      unfold Server.ahead
      omega

end Steps

/-! ## 6. A run to the end -/

/-- What is known of a stopped server at every step. -/
structure Stopping (s : Server n) : Prop where
  orderly : Orderly s
  borne : Borne s
  sunk : AllSunk s
  stopped : s.shutdown = true
  room : s.balance.cap.toNat + (s.accepted + s.ahead) ≤ retiredCount.toNat

theorem Stopping.roomy {s : Server n} (h : Stopping s) : Roomy s :=
  Nat.le_trans (Nat.add_le_add_left (Nat.le_add_right _ _) _) h.room

theorem Stopping.step {s : Server n} (h : Stopping s) {e : Server.Event n}
    (hatomic : s.atomic e = true) : Stopping (s.step e) where
  orderly := orderly_step h.orderly e
  borne := borne_step h.borne e
  sunk := allSunk_step h.orderly h.borne h.sunk h.roomy e
  stopped := by
    cases e with
    | signal => rfl
    | finish w c =>
        show (s.finish w c).shutdown = true
        unfold Server.finish
        split <;> exact h.stopped
    | turn me i => exact h.stopped
  room := by
    rw [cap_step h.orderly e]
    have hahead := step_ahead h.orderly h.sunk h.roomy h.stopped hatomic
    exact Nat.le_trans (Nat.add_le_add_left hahead _) h.room

/-- A server after `k` of the events to come. -/
def Server.along (s : Server n) (es : Nat → Server.Event n) (k : Nat) : Server n :=
  s.run ((List.range k).map es)

theorem along_succ (s : Server n) (es : Nat → Server.Event n) (k : Nat) :
    s.along es (k + 1) = (s.along es k).step (es k) := by
  simp [Server.along, Server.run, List.range_succ, List.foldl_append]

/-- A worker that has not left is given a turn in which its `select!` hears the
signal and its compare-exchange does not fail for nothing, sooner or later. -/
def Fair (s : Server n) (es : Nat → Server.Event n) : Prop :=
  ∀ w k, ((s.along es k).worker w).pc ≠ .left → ∃ j, k ≤ j ∧
    (((s.along es j).worker w).pc = .left ∨
      ∃ i gone, es j = .turn w i ∧ i.branch = .changed gone ∧ i.spurious = false)

section Runs

variable {s : Server n} {es : Nat → Server.Event n}

theorem stopping_along (h : Stopping s) (hatomic : ∀ k, (s.along es k).atomic (es k) = true)
    (k : Nat) :
    Stopping (s.along es k) := by
  induction k with
  | zero => exact h
  | succ k ih =>
      rw [along_succ]
      exact ih.step (hatomic k)

/-- What every worker can still accept is all that is accepted. -/
theorem accepted_along (h : Stopping s) (hatomic : ∀ k, (s.along es k).atomic (es k) = true)
    (k : Nat) :
    (s.along es k).accepted ≤ s.accepted + n := by
  have hahead : (s.along es k).accepted + (s.along es k).ahead ≤ s.accepted + s.ahead := by
    induction k with
    | zero => exact Nat.le_refl _
    | succ k ih =>
        rw [along_succ]
        have hk := stopping_along h hatomic k
        exact Nat.le_trans (step_ahead hk.orderly hk.sunk hk.roomy hk.stopped (hatomic k)) ih
  have hall : s.ahead ≤ n := total_le fun w => (s.worker w).pc.ahead_le
  omega

theorem left_along (h : Stopping s) (hatomic : ∀ k, (s.along es k).atomic (es k) = true)
    (hfair : Fair s es) : ∃ N, (∀ k, N ≤ k → s.along es k = s.along es N) ∧
      ∀ w, ((s.along es N).worker w).pc = .left := by
  have hstep : ∀ k, s.along es (k + 1) = s.along es k
      ∨ (s.along es (k + 1)).rank < (s.along es k).rank := by
    intro k
    have hk := stopping_along h hatomic k
    rw [along_succ]
    exact step_winds hk.orderly hk.sunk hk.roomy hk.stopped (hatomic k)
  have hmoves : ∀ (w : Fin n) k, ((s.along es k).worker w).pc ≠ .left → ∃ j, k ≤ j ∧
      (((s.along es j).worker w).pc = .left ∨ s.along es (j + 1) ≠ s.along es j) := by
    intro w k hin
    obtain ⟨j, hj, hleft | ⟨i, gone, hturn, hbranch, hspurious⟩⟩ := hfair w k hin
    · exact ⟨j, hj, .inl hleft⟩
    · refine ⟨j, hj, ?_⟩
      by_cases hleft : ((s.along es j).worker w).pc = .left
      · exact .inl hleft
      · refine .inr ?_
        have hk := stopping_along h hatomic j
        have hcas := hatomic j
        rw [along_succ]
        rw [hturn] at hcas ⊢
        exact turn_moves hk.orderly hk.sunk hk.roomy hk.stopped hcas hleft hbranch hspurious
  exact @Descent.rests_done _ (s.along es) Server.rank (Fin n)
    (fun w s' => (s'.worker w).pc = .left) hstep hmoves

end Runs

theorem stopping_run (n : Nat) (maxConnections : UInt64) (before : List (Server.Event n))
    (hsignal : ((Server.start n maxConnections).run before).shutdown = true)
    (hroom : (max maxConnections 1).toNat
      + (((Server.start n maxConnections).run before).accepted + n) ≤ retiredCount.toNat) :
    Stopping ((Server.start n maxConnections).run before) := by
  have hcap := (exact_run n maxConnections before).2
  have hroomy : Roomy ((Server.start n maxConnections).run before) := by
    unfold Roomy
    rw [hcap]
    omega
  have hsunk := sunk_and_trail_run before (orderly_start n maxConnections)
    (borne_start n maxConnections) nofun (fun _ => Trail.nil) hroomy
  have hborne : Borne ((Server.start n maxConnections).run before) :=
    run_induction (borne_start n maxConnections) fun _ e _ bo => borne_step bo e
  refine ⟨orderly_run n maxConnections before, hborne, hsunk.1, hsignal, ?_⟩
  have hall : ((Server.start n maxConnections).run before).ahead ≤ n :=
    total_le fun w => Pc.ahead_le _
  rw [hcap]
  omega

/-- Where every worker has left, a connection that has not finished is a task of
one of them. -/
theorem served_of_left {s : Server n} (o : Orderly s) (ac : Accounted s)
    (hleft : ∀ w, (s.worker w).pc = .left) {c : Handoff} (hc : c < s.accepted) :
    c ∈ s.finished ∨ ∃ w, c ∈ (s.worker w).live ∧ ∀ v, c ∈ (s.worker v).live → v = w := by
  by_cases hfin : c ∈ s.finished
  · exact .inl hfin
  · obtain ⟨⟨station, w⟩, hone, hsole⟩ := sole_place ac hc hfin
    have hmem : c ∈ s.holds (station, w) := List.count_pos_iff.mp (by rw [hone]; exact Nat.one_pos)
    cases station with
    | served =>
        exact .inr ⟨w, hmem, fun v hv => congrArg Prod.snd (hsole (.served, v) hv)⟩
    | queued =>
        have hnone : s.balance.inbox w = [] := o.left w (hleft w)
        exact absurd (hnone ▸ hmem : c ∈ []) List.not_mem_nil
    | hands =>
        have hnone : s.holds (.hands, w) = [] := by
          simp only [Server.holds, hleft w]
          rfl
        exact absurd (hnone ▸ hmem) List.not_mem_nil
    | pending =>
        have hpending : (s.worker w).pending = none := o.pending w (by rw [hleft w]; rfl)
        have hnone : s.holds (.pending, w) = [] := by
          simp only [Server.holds, hpending]
          rfl
        exact absurd (hnone ▸ hmem) List.not_mem_nil

/-! ## 7. The end -/

/-- **A server that is told to stop winds down.** Take any run that ends with
the shutdown signalled, under a cap that leaves the sentinel room, and any fair
order of what comes next. From then on no more connections are accepted, in
all, than there are workers; and after some step nothing happens any more,
every worker has left its loops, with nothing queued for it and nothing held
back, and, if `into_std` and `from_std` never fail, each connection that was
ever accepted has finished or is a task of exactly one worker, which gives it
the time of grace. -/
theorem server_winds_down (n : Nat) (maxConnections : UInt64) (before : List (Server.Event n))
    (after : Nat → Server.Event n)
    (hsignal : ((Server.start n maxConnections).run before).shutdown = true)
    (hroom : (max maxConnections 1).toNat
      + (((Server.start n maxConnections).run before).accepted + n) ≤ retiredCount.toNat)
    (hatomic : ∀ k,
      (((Server.start n maxConnections).run before).along after k).atomic (after k) = true)
    (hfair : Fair ((Server.start n maxConnections).run before) after) :
    let s := (Server.start n maxConnections).run before
    (∀ k, (s.along after k).accepted ≤ s.accepted + n) ∧
      ∃ N, (∀ k, N ≤ k → s.along after k = s.along after N) ∧
        (∀ w, ((s.along after N).worker w).pc = .left ∧ (s.along after N).balance.inbox w = [] ∧
          ((s.along after N).worker w).pending = none) ∧
        ((∀ e ∈ before, e.converts = true) → (∀ k, (after k).converts = true) →
          ∀ c < (s.along after N).accepted, c ∈ (s.along after N).finished ∨
            ∃ w, c ∈ ((s.along after N).worker w).live ∧
              ∀ v, c ∈ ((s.along after N).worker v).live → v = w) := by
  intro s
  have hstopping : Stopping s := stopping_run n maxConnections before hsignal hroom
  obtain ⟨N, hrests, hleft⟩ := left_along hstopping hatomic hfair
  have ho : Orderly (s.along after N) := (stopping_along hstopping hatomic N).orderly
  refine ⟨accepted_along hstopping hatomic, N, hrests, fun w => ?_, fun hbefore hafter c hc => ?_⟩
  · exact ⟨hleft w, ho.left w (hleft w), ho.pending w (by rw [hleft w]; rfl)⟩
  · have hrun : s.along after N
        = (Server.start n maxConnections).run (before ++ (List.range N).map after) := by
      simp [s, Server.along, Server.run, List.foldl_append]
    have hac : Accounted (s.along after N) := by
      rw [hrun]
      refine accounted_run n maxConnections fun e he => ?_
      rcases List.mem_append.mp he with he | he
      · exact hbefore e he
      · obtain ⟨k, -, rfl⟩ := List.mem_map.mp he
        exact hafter k
    exact served_of_left ho hac hleft hc

/-- Turns of the two workers, one after the other, in each of which the signal
is ready. -/
def stoppingTurns (k : Nat) : Server.Event 2 :=
  .turn (if k % 2 = 0 then second else first) (input (.changed false) 0)

/-- The second worker is stopped with a handoff still queued for it. -/
def handoffStopped : List (Server.Event 2) := handoffRun ++ [.signal]

def stoppedHandoff : Server 2 := (Server.start 2 0).run handoffStopped

theorem stoppedHandoff_left (w : Fin 2) :
    ((stoppedHandoff.along stoppingTurns 20).worker w).pc = .left := by
  revert w
  decide +kernel

theorem stoppedHandoff_rests (k : Nat) (hk : 20 ≤ k) :
    stoppedHandoff.along stoppingTurns k = stoppedHandoff.along stoppingTurns 20 := by
  generalize hs : stoppedHandoff.along stoppingTurns 20 = s
  have hleft : ∀ w, (s.worker w).pc = .left := hs ▸ stoppedHandoff_left
  have hstays : ∀ k, s.step (stoppingTurns k) = s := by
    intro k
    simp only [stoppingTurns, Server.step, Server.turn, hleft]
    exact apply_own_self _ _
  induction k, hk using Nat.le_induction with
  | base => exact hs
  | succ k _ ih => rw [along_succ, ih, hstays]

theorem stoppedHandoff_atomic (k : Nat) :
    (stoppedHandoff.along stoppingTurns k).atomic (stoppingTurns k) = true := by
  by_cases hk : k < 20
  · have hall : ∀ k < 20, (stoppedHandoff.along stoppingTurns k).atomic (stoppingTurns k)
        = true := by
      decide +kernel
    exact hall k hk
  · rw [stoppedHandoff_rests k (Nat.le_of_not_lt hk)]
    simp only [Server.atomic, stoppingTurns, stoppedHandoff_left]

theorem stoppedHandoff_fair : Fair stoppedHandoff stoppingTurns := by
  have hturns : ∀ w k, ∃ j, k ≤ j ∧ stoppingTurns j = .turn w (input (.changed false) 0) := by
    intro w k
    by_cases hw : w = second
    · refine ⟨2 * k, by omega, ?_⟩
      rw [stoppingTurns, if_pos (by omega), hw]
    · refine ⟨2 * k + 1, by omega, ?_⟩
      have hfirst : w = first := (by decide : ∀ w, w ≠ second → w = first) w hw
      rw [stoppingTurns, if_neg (by omega), hfirst]
  intro w k _
  obtain ⟨j, hj, hturn⟩ := hturns w k
  exact ⟨j, hj, .inr ⟨input (.changed false) 0, false, hturn, rfl, rfl⟩⟩

theorem server_winds_down_handoff :
    stoppedHandoff.balance.inbox second = [1] ∧
      ∃ N, (∀ k, N ≤ k →
          stoppedHandoff.along stoppingTurns k = stoppedHandoff.along stoppingTurns N) ∧
        ∀ w, ((stoppedHandoff.along stoppingTurns N).worker w).pc = .left := by
  have hqueued : stoppedHandoff.balance.inbox second = [1] := by decide +kernel
  have hsignal : stoppedHandoff.shutdown = true := by decide +kernel
  have hroom : (max 0 1 : UInt64).toNat + (stoppedHandoff.accepted + 2) ≤ retiredCount.toNat := by
    decide +kernel
  obtain ⟨-, N, hrests, hleft, -⟩ := server_winds_down 2 0 handoffStopped stoppingTurns
    hsignal hroom stoppedHandoff_atomic stoppedHandoff_fair
  exact ⟨hqueued, N, hrests, fun w => (hleft w).1⟩

end ArmatureH1.Workers
