/-
ArmatureH1.ServerRetire — a retired worker is out, and `route` comes to an
end.

`retire` overwrites a worker's count with `RETIRED`, and the same counter goes
on being counted down by the connections that worker still serves and by slots
given back elsewhere, counted up by its drain loop, and overwritten again by
senders that find its inbox closed. So what a retired count stands for is an
interval, not a number. `Sunk` gives both ends: the sentinel has sunk by no
more than the connections accepted so far less the slots still taken, and
risen by no more than the connections the worker itself has counted again and
still has. For the lower end a slot must be a connection; `Borne` says that no
more are borne than were accepted.

As long as the interval stays above the cap (`Roomy`), no reservation succeeds
on a retired worker, and the workers on which a `route` has failed so far can
be kept in a list without repetition: each of them is retired, and the next
target is not. The source does not keep that list; `tried` records it beside a
run.

A load may return an older value of a counter, and what is said of `has_room`
is said of loads that return the count. `reserve` needs no such reading: its
compare-exchange acts on the count itself.
-/
import ArmatureH1.ServerCustody

namespace ArmatureH1.Workers

variable {n : Nat}

/-! ## 1. Slots are no more than connections -/

/-- Whether the code has a connection, or a slot, in its hands at this
point. -/
def Pc.burden : Pc n → Nat
  | mine _ | probe _ _ _ _ | reserve _ _ | exchange _ _ _ _ => 1
  | placed _ _ | sending _ _ | refused _ _ => 1
  | adopting _ _ | releasing _ _ | recount _ => 1
  | _ => 0

/-- What a worker has: tasks, a connection held back, and what is in its
hands. -/
def Worker.burden (w : Worker n) : Nat :=
  w.live.length + (w.pending.toList.length + w.pc.burden)

/-- The handoffs that are queued. -/
def Balance.queued (b : Balance n) : Nat := b.queues.card

/-- What all workers have, and what is queued between them. -/
def Server.burden (s : Server n) : Nat :=
  Ledger.total (fun w => (s.worker w).burden) + s.balance.queued

theorem burden_of_pc {w : Worker n} {pc : Pc n} (h : w.pc = pc) :
    w.burden = w.live.length + (w.pending.toList.length + pc.burden) := by
  rw [Worker.burden, h]

theorem burden_routed (w : Worker n) (back : Option Handoff) (r : Route) :
    (w.routed back r).burden = w.live.length + back.toList.length := by
  cases r <;> rfl

theorem burden_resume (w : Worker n) (next : Next) :
    (w.resume next).burden ≤ w.live.length + w.pending.toList.length := by
  cases next with
  | loop => exact Nat.le_refl _
  | routed r =>
      show (w.routed none r).burden ≤ _
      rw [burden_routed]
      exact Nat.add_le_add_left (Nat.zero_le _) _
  | drain => exact Nat.le_refl _

section Burden

variable {s : Server n} {me : Fin n} {i : Input}

theorem queued_send (b : Balance n) (w : Fin n) (c : Handoff) :
    (b.send w c).queued = b.queued + 1 := by
  rw [Balance.queued, queues_send, Multiset.card_cons]
  rfl

theorem queued_recv {b : Balance n} {w : Fin n} {c : Handoff} {rest : List Handoff}
    (h : b.inbox w = c :: rest) : (b.recv w rest).queued + 1 = b.queued := by
  rw [Balance.queued, Balance.queued, ← queues_recv h, Multiset.card_cons]

/-- What a turn may add to the worker's own burden and to the queues: nothing
but the connection it accepts. -/
def Turn.Bears (s : Server n) (me : Fin n) (t : Turn n) : Prop :=
  t.worker.burden + t.balance.queued + s.accepted
    ≤ (s.worker me).burden + s.balance.queued + t.accepted

/-- A turn that leaves queues and acceptances alone. -/
theorem bears_of_le {b : Balance n} {w : Worker n} (hqueued : b.queued = s.balance.queued)
    (hle : w.burden ≤ (s.worker me).burden) : Turn.Bears s me ⟨b, s.accepted, w⟩ := by
  unfold Turn.Bears
  simp only [hqueued]
  omega

/-- The same when only the `Pc` changes. -/
theorem bears_goto {pc pc' : Pc n} (hpc : (s.worker me).pc = pc) (hle : pc'.burden ≤ pc.burden)
    {b : Balance n} (hqueued : b.queued = s.balance.queued) :
    Turn.Bears s me ⟨b, s.accepted, (s.worker me).goto pc'⟩ := by
  refine bears_of_le hqueued ?_
  rw [burden_of_pc hpc]
  show (s.worker me).live.length + ((s.worker me).pending.toList.length + pc'.burden) ≤ _
  omega

theorem turnRecv_bears {pc : Pc n} (hpc : (s.worker me).pc = pc) (hzero : pc.burden = 0) :
    Turn.Bears s me (s.turnRecv me) := by
  unfold Server.turnRecv
  split
  · exact bears_of_le rfl (Nat.le_refl _)
  · rename_i c rest hinbox
    have hqueued := queued_recv hinbox
    unfold Turn.Bears
    rw [burden_of_pc hpc, hzero]
    show (s.worker me).live.length + ((s.worker me).pending.toList.length + 1)
      + (s.balance.recv me rest).queued + s.accepted ≤ _
    simp only [Server.shared]
    omega

theorem turnChanged_bears {pc : Pc n} (hpc : (s.worker me).pc = pc) (gone : Bool) :
    Turn.Bears s me (s.turnChanged me gone) := by
  unfold Server.turnChanged
  split
  · exact bears_goto hpc (Nat.zero_le _) rfl
  · exact bears_goto hpc (Nat.zero_le _) rfl

theorem turnParked_bears (hpc : (s.worker me).pc = .parked) (br : Branch) :
    Turn.Bears s me (s.turnParked me br) := by
  cases br with
  | changed gone => exact turnChanged_bears hpc gone
  | freed =>
      simp only [Server.turnParked]
      split
      · exact bears_goto hpc (Nat.zero_le _) rfl
      · exact bears_of_le rfl (Nat.le_refl _)
  | recv => exact turnRecv_bears hpc rfl
  | sleep => exact bears_goto hpc (Nat.zero_le _) rfl
  | accept => exact bears_of_le rfl (Nat.le_refl _)
  | acceptError _ => exact bears_of_le rfl (Nat.le_refl _)

theorem turnAccepting_bears {armed : Bool} (hpc : (s.worker me).pc = .accepting armed)
    (br : Branch) : Turn.Bears s me (s.turnAccepting me armed br) := by
  cases br with
  | changed gone => exact turnChanged_bears hpc gone
  | freed => exact bears_of_le rfl (Nat.le_refl _)
  | recv => exact turnRecv_bears hpc rfl
  | sleep =>
      simp only [Server.turnAccepting]
      split
      · exact bears_goto hpc (Nat.zero_le _) rfl
      · exact bears_of_le rfl (Nat.le_refl _)
  | accept =>
      unfold Turn.Bears
      rw [burden_of_pc hpc]
      show (s.worker me).live.length + ((s.worker me).pending.toList.length + 1)
          + s.balance.queued + s.accepted
        ≤ (s.worker me).live.length + ((s.worker me).pending.toList.length + 0)
          + s.balance.queued + (s.accepted + 1)
      omega
  | acceptError pause =>
      cases pause with
      | true => exact bears_goto hpc (Nat.zero_le _) rfl
      | false => exact bears_goto hpc (Nat.zero_le _) rfl

theorem turnNowhere_bears {rest : List (Fin n)} (h : Errand)
    (hpc : (s.worker me).pc = .reserve h rest) : Turn.Bears s me (s.turnNowhere me i h) := by
  have hbefore : (s.worker me).burden
      = (s.worker me).live.length + ((s.worker me).pending.toList.length + 1) :=
    burden_of_pc hpc
  cases h with
  | accepted c =>
      simp only [Server.turnNowhere]
      split
      · refine bears_of_le rfl ?_
        rw [hbefore]
        show (s.worker me).live.length + (1 + 0) ≤ _
        omega
      · exact bears_goto hpc (Nat.zero_le _) rfl
  | routing c r =>
      refine bears_of_le rfl ?_
      rw [burden_routed, hbefore]
      show (s.worker me).live.length + 1 ≤ _
      omega

theorem turnPlaced_bears {u : Fin n} (h : Errand) (hpc : (s.worker me).pc = .placed h u) :
    Turn.Bears s me (s.turnPlaced me i u h) := by
  have hbefore : (s.worker me).burden
      = (s.worker me).live.length + ((s.worker me).pending.toList.length + 1) :=
    burden_of_pc hpc
  cases h with
  | accepted c =>
      simp only [Server.turnPlaced]
      split
      · refine bears_of_le rfl ?_
        rw [hbefore]
        show (s.worker me).live.length + 1 + ((s.worker me).pending.toList.length + 0) ≤ _
        omega
      split
      · exact bears_goto hpc (Nat.le_refl _) rfl
      · exact bears_goto hpc (Nat.le_refl _) rfl
  | routing c r =>
      simp only [Server.turnPlaced]
      split
      · exact bears_goto hpc (Nat.le_refl _) rfl
      · exact bears_goto hpc (Nat.le_refl _) rfl

theorem send_bears {u : Fin n} (h : Errand) (hpc : (s.worker me).pc = .sending h u) :
    Turn.Bears s me
      (s.shared (s.balance.send u h.conn) (Server.afterSend (s.worker me) h)) := by
  have hafter : (Server.afterSend (s.worker me) h).burden + 1 ≤ (s.worker me).burden := by
    rw [burden_of_pc hpc]
    cases h with
    | accepted c => exact Nat.le_refl _
    | routing c r =>
        show ((s.worker me).routed none r).burden + 1 ≤ _
        rw [burden_routed]
        show (s.worker me).live.length + 0 + 1 ≤ _ + (_ + 1)
        omega
  have hqueued := queued_send s.balance u h.conn
  unfold Turn.Bears
  simp only [Server.shared, hqueued]
  omega

/-- Every turn bears no more than it may. -/
theorem turn_bears (s : Server n) (me : Fin n) (i : Input) : Turn.Bears s me (s.turn me i) := by
  cases hpc : (s.worker me).pc with
  | top =>
      simp only [Server.turn, hpc]
      split
      · exact bears_goto hpc (Nat.zero_le _) rfl
      · exact bears_goto hpc (Nat.zero_le _) rfl
  | held =>
      simp only [Server.turn, hpc]
      split
      · exact bears_goto hpc (Nat.zero_le _) rfl
      · rename_i c hheld
        refine bears_of_le rfl ?_
        rw [burden_of_pc hpc, hheld]
        exact Nat.le_refl _
  | gate =>
      simp only [Server.turn, hpc]
      split
      · exact bears_goto hpc (Nat.zero_le _) rfl
      split
      · exact bears_goto hpc (Nat.zero_le _) rfl
      · exact bears_goto hpc (Nat.zero_le _) rfl
  | room rest =>
      cases rest with
      | nil =>
          simp only [Server.turn, hpc]
          exact bears_goto hpc (Nat.zero_le _) rfl
      | cons _ rest =>
          simp only [Server.turn, hpc]
          split
          · exact bears_goto hpc (Nat.zero_le _) rfl
          · exact bears_goto hpc (Nat.zero_le _) rfl
  | parked =>
      simp only [Server.turn, hpc]
      exact turnParked_bears hpc i.branch
  | arm =>
      simp only [Server.turn, hpc]
      exact bears_goto hpc (Nat.zero_le _) rfl
  | accepting armed =>
      simp only [Server.turn, hpc]
      exact turnAccepting_bears hpc i.branch
  | backoff =>
      simp only [Server.turn, hpc]
      exact bears_goto hpc (Nat.zero_le _) rfl
  | mine h =>
      simp only [Server.turn, hpc]
      split
      · exact bears_goto hpc (Nat.le_refl _) rfl
      · refine bears_of_le rfl ?_
        rw [burden_of_pc hpc]
        exact Nat.le_refl _
  | probe h mine best rest =>
      cases rest with
      | nil =>
          simp only [Server.turn, hpc]
          exact bears_goto hpc (Nat.le_refl _) rfl
      | cons p rest =>
          simp only [Server.turn, hpc]
          exact bears_goto hpc (Nat.le_refl _) rfl
  | reserve h rest =>
      cases rest with
      | nil =>
          simp only [Server.turn, hpc]
          exact turnNowhere_bears h hpc
      | cons u rest =>
          simp only [Server.turn, hpc]
          exact bears_goto hpc (Nat.le_refl _) rfl
  | exchange h u seen rest =>
      simp only [Server.turn, hpc]
      split
      · split
        · exact bears_goto hpc (Nat.le_refl _) rfl
        · exact bears_goto hpc (Nat.le_refl _) rfl
      · exact bears_goto hpc (Nat.le_refl _) rfl
  | placed h u =>
      simp only [Server.turn, hpc]
      exact turnPlaced_bears h hpc
  | sending h u =>
      simp only [Server.turn, hpc]
      split
      · exact bears_goto hpc (Nat.le_refl _) rfl
      · exact send_bears h hpc
  | refused h u =>
      simp only [Server.turn, hpc]
      exact bears_goto hpc (Nat.le_refl _) rfl
  | adopting c next =>
      simp only [Server.turn, hpc]
      split
      · refine bears_of_le rfl ?_
        have hresume := burden_resume ((s.worker me).serve c) next
        rw [serve_live, serve_pending, List.length_cons] at hresume
        rw [burden_of_pc hpc]
        show _ ≤ (s.worker me).live.length + ((s.worker me).pending.toList.length + 1)
        omega
      · exact bears_goto hpc (Nat.le_refl _) rfl
  | releasing u next =>
      simp only [Server.turn, hpc]
      refine bears_of_le rfl ?_
      have hresume := burden_resume (s.worker me) next
      rw [burden_of_pc hpc]
      omega
  | retire =>
      simp only [Server.turn, hpc]
      exact bears_goto hpc (Nat.zero_le _) rfl
  | close =>
      simp only [Server.turn, hpc]
      exact bears_goto hpc (Nat.zero_le _) rfl
  | drainHeld =>
      simp only [Server.turn, hpc]
      split
      · exact bears_goto hpc (Nat.zero_le _) rfl
      · rename_i c hheld
        refine bears_of_le rfl ?_
        rw [burden_of_pc hpc, hheld]
        exact Nat.le_refl _
  | drain =>
      simp only [Server.turn, hpc]
      split
      · split
        · exact bears_goto hpc (Nat.zero_le _) rfl
        · exact bears_of_le rfl (Nat.le_refl _)
      · rename_i c rest hinbox
        have hqueued := queued_recv hinbox
        unfold Turn.Bears
        rw [burden_of_pc hpc]
        show (s.worker me).live.length + ((s.worker me).pending.toList.length + 1)
          + (s.balance.recv me rest).queued + s.accepted ≤ _
        simp only [Server.shared]
        omega
  | recount c =>
      simp only [Server.turn, hpc]
      exact bears_goto hpc (Nat.le_refl _) rfl
  | left =>
      simp only [Server.turn, hpc]
      exact bears_of_le rfl (Nat.le_refl _)

/-- No more is borne than was accepted. -/
def Borne (s : Server n) : Prop := s.burden ≤ s.accepted

theorem burden_apply (s : Server n) (me : Fin n) (t : Turn n) :
    (s.apply me t).burden + (s.worker me).burden + s.balance.queued
      = s.burden + t.worker.burden + t.balance.queued := by
  have hupd : (fun w => ((s.apply me t).worker w).burden)
      = Function.update (fun w => (s.worker w).burden) me t.worker.burden := by
    funext w
    exact Function.apply_update (fun _ (w : Worker n) => w.burden) ..
  have hsum := Ledger.total_update (fun w => (s.worker w).burden) me t.worker.burden
  have hqueued : (s.apply me t).balance.queued = t.balance.queued := rfl
  rw [Server.burden, Server.burden, hupd, hqueued]
  omega

theorem borne_apply (bo : Borne s) {t : Turn n} (h : Turn.Bears s me t) :
    Borne (s.apply me t) := by
  have hsum := burden_apply s me t
  unfold Borne Turn.Bears at *
  show _ ≤ t.accepted
  omega

theorem borne_step (bo : Borne s) (e : Server.Event n) : Borne (s.step e) := by
  cases e with
  | signal => exact bo
  | finish w c =>
      show Borne (s.finish w c)
      unfold Server.finish
      split
      · have hlen := List.length_erase_le (a := c) (l := (s.worker w).live)
        refine borne_apply bo (t := ⟨s.balance.release w, s.accepted,
          { s.worker w with live := (s.worker w).live.erase c }⟩) (bears_of_le rfl ?_)
        exact Nat.add_le_add_right hlen _
      · exact bo
  | turn w i => exact borne_apply bo (turn_bears s w i)

theorem borne_start (n : Nat) (maxConnections : UInt64) :
    Borne (Server.start n maxConnections) := by
  have hworkers : Ledger.total (fun w => ((Server.start n maxConnections).worker w).burden) = 0 :=
    Ledger.total_eq_zero fun _ => rfl
  have hqueues : (Server.start n maxConnections).balance.queues = 0 :=
    Ledger.total_eq_zero fun _ => rfl
  rw [Borne, Server.burden, hworkers, Balance.queued, hqueues]
  exact Nat.le_refl _

theorem slotOn_le_burden (u v : Fin n) (pc : Pc n) : slotOn u (pc.slot v) ≤ pc.burden := by
  have hone : slotOn u (pc.slot v) ≤ 1 := by
    unfold slotOn
    split <;> omega
  cases pc <;> first | exact hone | exact Nat.zero_le _

/-- The slots taken on one worker are among what is borne. -/
theorem slots_le_burden (s : Server n) (u : Fin n) : s.slots u ≤ s.burden := by
  have hlive : (s.worker u).live.length ≤ Ledger.total fun w => (s.worker w).live.length :=
    Finset.single_le_sum (f := fun w => (s.worker w).live.length) (fun _ _ => Nat.zero_le _)
      (Finset.mem_univ u)
  have hhand : s.inHand u ≤ Ledger.total fun w => (s.worker w).pc.burden := by
    rw [inHand_eq_total]
    exact Finset.sum_le_sum fun v _ => slotOn_le_burden u v _
  have hboth : Ledger.total (fun w => (s.worker w).live.length)
      + Ledger.total (fun w => (s.worker w).pc.burden)
      ≤ Ledger.total fun w => (s.worker w).burden := by
    rw [Ledger.total, Ledger.total, Ledger.total, ← Finset.sum_add_distrib]
    refine Finset.sum_le_sum fun w _ => ?_
    unfold Worker.burden
    omega
  have hqueue : (s.balance.inbox u).length ≤ s.balance.queued := by
    have hle : (s.balance.inbox u : Multiset Handoff) ≤ s.balance.queues :=
      Finset.single_le_sum (f := fun w => (s.balance.inbox w : Multiset Handoff))
        (fun _ _ => Multiset.zero_le _) (Finset.mem_univ u)
    exact Multiset.card_le_card hle
  unfold Server.slots Server.burden
  omega

end Burden

/-! ## 2. The count of a retired worker -/

/-- Whether a retired worker has counted the connection in its hands. -/
def Pc.counted (me : Fin n) : Pc n → Nat
  | adopting _ .drain => 1
  | releasing u .drain => if u = me then 1 else 0
  | _ => 0

/-- The connections a retired worker may have counted since it was retired:
no more than those it still has. -/
def Server.counted (s : Server n) (w : Fin n) : Nat :=
  (s.worker w).live.length + (s.worker w).pc.counted w

/-- The sentinel has sunk by no more than the slots that were given back, and
risen by no more than the connections counted again. -/
structure Sunk (s : Server n) (w : Fin n) : Prop where
  low : retiredCount.toNat + s.slots w ≤ (s.balance.count w).toNat + s.accepted
  high : (s.balance.count w).toNat ≤ retiredCount.toNat + s.counted w

/-- The cap leaves the sentinel room to sink. -/
def Roomy (s : Server n) : Prop := s.balance.cap.toNat + s.accepted ≤ retiredCount.toNat

/-- What holds of every retired worker. -/
def AllSunk (s : Server n) : Prop := ∀ w, s.balance.retired w = true → Sunk s w

theorem toNat_retiredCount : retiredCount.toNat = 2 ^ 63 - 1 := by decide

section Sinking

variable {s : Server n} {me w : Fin n} {i : Input}

theorem counted_le_burden (s : Server n) (w : Fin n) : s.counted w ≤ s.burden := by
  have hpc : (s.worker w).pc.counted w ≤ (s.worker w).pc.burden := by
    cases (s.worker w).pc with
    | adopting c next => cases next <;> exact Nat.le_of_ble_eq_true rfl
    | releasing u next =>
        cases next with
        | drain =>
            show (if u = w then 1 else 0) ≤ 1
            split <;> omega
        | _ => exact Nat.zero_le _
    | _ => exact Nat.zero_le _
  have hone : (s.worker w).burden ≤ Ledger.total fun v => (s.worker v).burden :=
    Finset.single_le_sum (f := fun v => (s.worker v).burden) (fun _ _ => Nat.zero_le _)
      (Finset.mem_univ w)
  have hworker : (s.worker w).burden = (s.worker w).live.length
      + ((s.worker w).pending.toList.length + (s.worker w).pc.burden) := burden_of_pc rfl
  unfold Server.counted Server.burden
  omega

/-- **A retired worker is past its cap**, by at least the slots still taken
on it. -/
theorem Sunk.past_cap (su : Sunk s w) (ro : Roomy s) :
    s.balance.cap.toNat + s.slots w ≤ (s.balance.count w).toNat := by
  have hlow := su.low
  unfold Roomy at ro
  omega

theorem Sunk.full (su : Sunk s w) (ro : Roomy s) : ¬ s.balance.count w < s.balance.cap := by
  have hpast := su.past_cap ro
  rw [UInt64.lt_iff_toNat_lt]
  omega

/-- The count does not come near the other end either. -/
theorem Sunk.toNat_succ (su : Sunk s w) (ro : Roomy s) (bo : Borne s) :
    (s.balance.count w + 1).toNat = (s.balance.count w).toNat + 1 := by
  have hhigh := su.high
  have hcounted := counted_le_burden s w
  have hretired := toNat_retiredCount
  unfold Roomy at ro
  unfold Borne at bo
  have hlast : s.balance.count w < (0xFFFFFFFFFFFFFFFF : UInt64) := by
    rw [UInt64.lt_iff_toNat_lt]
    show (s.balance.count w).toNat < 2 ^ 64 - 1
    omega
  exact toNat_add_one hlast

theorem accepted_apply {t : Turn n} (m : Move s me i t) : s.accepted ≤ t.accepted := by
  cases m with
  | accept => exact Nat.le_succ _
  | _ => exact Nat.le_refl _

theorem accepted_step (o : Orderly s) (e : Server.Event n) :
    s.accepted ≤ (s.step e).accepted := by
  cases e with
  | signal => exact Nat.le_refl _
  | finish v c =>
      show s.accepted ≤ (s.finish v c).accepted
      unfold Server.finish
      split <;> exact Nat.le_refl _
  | turn v i => exact accepted_apply (turn_move (i := i) o)

/-- The lower bound is a matter of the books alone. -/
theorem low_step (o : Orderly s) (bo : Borne s) (su : AllSunk s) (ro : Roomy s)
    (e : Server.Event n) (hw : (s.step e).balance.retired w = true) :
    retiredCount.toNat + (s.step e).slots w
      ≤ ((s.step e).balance.count w).toNat + (s.step e).accepted := by
  have hmore := accepted_step o e
  cases posting_step o e w with
  | same slots count retired =>
      have hlow := (su w (retired ▸ hw)).low
      rw [slots, count]
      omega
  | taken _ _ room retired => exact absurd room ((su w (retired ▸ hw)).full ro)
  | given slots count retired =>
      have hsunk := su w (retired ▸ hw)
      have hlow := hsunk.low
      have hpast := hsunk.past_cap ro
      rw [count, toNat_sub_one (by omega)]
      omega
  | recounted slots count before _ =>
      have hlow := (su w before).low
      rw [count, (su w before).toNat_succ ro bo]
      omega
  | retired count _ =>
      have hslots := slots_le_burden (s.step e) w
      have hborne : (s.step e).burden ≤ (s.step e).accepted := borne_step bo e
      rw [count]
      omega

/-- The turn of another worker does not raise the count of a full one. -/
theorem count_other {t : Turn n} (m : Move s me i t) (hne : w ≠ me)
    (hfull : ¬ s.balance.count w < s.balance.cap) :
    t.balance.count w = s.balance.count w
      ∨ (s.worker me).pc.slot me = some w ∧ t.balance.count w = s.balance.count w - 1
      ∨ t.balance.count w = retiredCount := by
  cases m with
  | stay hbooks => exact .inl (congrFun hbooks.count w)
  | reserve u hcap =>
      refine .inl (Function.update_of_ne ?_ ..)
      rintro rfl
      exact hfull hcap
  | release u hold =>
      by_cases hu : w = u
      · subst hu
        exact .inr (.inl ⟨hold, Function.update_self ..⟩)
      · exact .inl (Function.update_of_ne hu ..)
  | retire u =>
      by_cases hu : w = u
      · subst hu
        exact .inr (.inr (Function.update_self ..))
      · exact .inl (Function.update_of_ne hu ..)
  | recount => exact .inl (Function.update_of_ne hne ..)
  | _ => exact .inl rfl

/-- A slot in hand on a retired worker can be given back. -/
theorem Sunk.toNat_pred (su : Sunk s w) (ro : Roomy s) (hslots : 0 < s.slots w) :
    (s.balance.count w - 1).toNat = (s.balance.count w).toNat - 1
      ∧ 0 < (s.balance.count w).toNat := by
  have hpast := su.past_cap ro
  exact ⟨toNat_sub_one (by omega), by omega⟩

/-- A retired worker counts nothing that it does not have. -/
theorem own_high (o : Orderly s) (bo : Borne s) (su : Sunk s w) (ro : Roomy s)
    (hw : s.balance.retired w = true) :
    ((s.turn w i).balance.count w).toNat
      ≤ retiredCount.toNat
        + ((s.turn w i).worker.live.length + (s.turn w i).worker.pc.counted w) := by
  have hhigh := su.high
  have hsucc := su.toNat_succ ro bo
  unfold Server.counted at hhigh
  rw [o.retired w] at hw
  have hrecount : ((s.balance.recount w).count w).toNat = (s.balance.count w).toNat + 1 := by
    rw [← hsucc]
    exact congrArg _ (Function.update_self ..)
  cases hpc : (s.worker w).pc with
  | close =>
      rw [hpc] at hhigh
      simp only [Server.turn, hpc]
      exact hhigh
  | drainHeld =>
      rw [hpc] at hhigh
      simp only [Server.turn, hpc]
      split
      · exact hhigh
      · show ((s.balance.recount w).count w).toNat
          ≤ retiredCount.toNat + ((s.worker w).live.length + 1)
        rw [hrecount]
        change _ ≤ retiredCount.toNat + ((s.worker w).live.length + 0) at hhigh
        omega
  | drain =>
      rw [hpc] at hhigh
      simp only [Server.turn, hpc]
      split
      · split
        · exact hhigh
        · show _ ≤ retiredCount.toNat + ((s.worker w).live.length + (s.worker w).pc.counted w)
          rw [hpc]
          exact hhigh
      · exact hhigh
  | recount c =>
      rw [hpc] at hhigh
      simp only [Server.turn, hpc]
      show ((s.balance.recount w).count w).toNat
        ≤ retiredCount.toNat + ((s.worker w).live.length + 1)
      rw [hrecount]
      change _ ≤ retiredCount.toNat + ((s.worker w).live.length + 0) at hhigh
      omega
  | adopting c next =>
      cases next with
      | drain =>
          rw [hpc] at hhigh
          change _ ≤ retiredCount.toNat + ((s.worker w).live.length + 1) at hhigh
          simp only [Server.turn, hpc]
          split
          · show _ ≤ retiredCount.toNat + ((s.worker w).live.length + 1 + 0)
            exact hhigh
          · show _ ≤ retiredCount.toNat + ((s.worker w).live.length + if w = w then 1 else 0)
            rw [if_pos rfl]
            exact hhigh
      | _ => rw [hpc] at hw; cases hw
  | releasing u next =>
      cases next with
      | drain =>
          rw [hpc] at hhigh
          simp only [Server.turn, hpc]
          show ((s.balance.release u).count w).toNat
            ≤ retiredCount.toNat + ((s.worker w).live.length + 0)
          change _ ≤ retiredCount.toNat
            + ((s.worker w).live.length + if u = w then 1 else 0) at hhigh
          by_cases hu : u = w
          · subst hu
            have hslot : (s.worker u).pc.slot u = some u := by rw [hpc]; rfl
            obtain ⟨hpred, _⟩ := su.toNat_pred ro (slots_pos hslot)
            have hcount : (s.balance.release u).count u = s.balance.count u - 1 :=
              Function.update_self ..
            rw [hcount, hpred]
            rw [if_pos rfl] at hhigh
            omega
          · have hcount : (s.balance.release u).count w = s.balance.count w :=
              Function.update_of_ne (Ne.symm hu) ..
            rw [hcount]
            rw [if_neg hu] at hhigh
            exact hhigh
      | _ => rw [hpc] at hw; cases hw
  | left =>
      rw [hpc] at hhigh
      simp only [Server.turn, hpc]
      show _ ≤ retiredCount.toNat + ((s.worker w).live.length + (s.worker w).pc.counted w)
      rw [hpc]
      exact hhigh
  | _ => rw [hpc] at hw; cases hw

theorem high_finish (su : Sunk s w) (ro : Roomy s) (v : Fin n) (c : Handoff) :
    ((s.finish v c).balance.count w).toNat ≤ retiredCount.toNat + (s.finish v c).counted w := by
  have hhigh := su.high
  unfold Server.counted at hhigh ⊢
  rw [finish_pc]
  unfold Server.finish
  split
  · rename_i hc
    show (Function.update s.balance.count v _ w).toNat
      ≤ retiredCount.toNat + ((Function.update s.worker v _ w).live.length + _)
    by_cases hv : w = v
    · subst hv
      have hlen := List.length_pos_of_mem hc
      have herase := List.length_erase_add_one hc
      obtain ⟨hpred, hpos⟩ := su.toNat_pred ro (by unfold Server.slots; omega)
      rw [Function.update_self, Function.update_self, hpred]
      simp only
      omega
    · rw [Function.update_of_ne hv, Function.update_of_ne hv]
      exact hhigh
  · exact hhigh

/-- The upper bound, one step on. -/
theorem high_step (o : Orderly s) (bo : Borne s) (su : Sunk s w) (ro : Roomy s)
    (hw : s.balance.retired w = true) (e : Server.Event n) :
    ((s.step e).balance.count w).toNat ≤ retiredCount.toNat + (s.step e).counted w := by
  cases e with
  | signal => exact su.high
  | finish v c => exact high_finish su ro v c
  | turn v i =>
      unfold Server.counted
      by_cases hv : w = v
      · subst hv
        rw [step_turn_self]
        exact own_high o bo su ro hw
      rw [step_turn_other s i hv]
      show ((s.turn v i).balance.count w).toNat ≤ _
      have hhigh := su.high
      unfold Server.counted at hhigh
      obtain hsame | ⟨hslot, hpred⟩ | hreset :=
        count_other (turn_move (i := i) o) hv (su.full ro)
      · rw [hsame]
        exact hhigh
      · obtain ⟨hnat, _⟩ := su.toNat_pred ro (slots_pos hslot)
        rw [hpred, hnat]
        omega
      · rw [hreset]
        exact Nat.le_add_right _ _

/-- Once retired, always retired. -/
theorem retired_step (o : Orderly s) (e : Server.Event n) (hw : s.balance.retired w = true) :
    (s.step e).balance.retired w = true := by
  cases posting_step o e w with
  | same _ _ retired => rw [retired, hw]
  | taken _ _ _ retired => rw [retired, hw]
  | given _ _ retired => rw [retired, hw]
  | recounted _ _ _ retired => rw [retired, hw]
  | retired _ retired => exact retired

theorem allSunk_step (o : Orderly s) (bo : Borne s) (su : AllSunk s) (ro : Roomy s)
    (e : Server.Event n) : AllSunk (s.step e) := by
  intro w hw
  refine ⟨low_step o bo su ro e hw, ?_⟩
  by_cases hbefore : s.balance.retired w = true
  · exact high_step o bo (su w hbefore) ro hbefore e
  · cases posting_step o e w with
    | retired count _ =>
        rw [count]
        exact Nat.le_add_right _ _
    | same _ _ retired => exact absurd (retired ▸ hw) hbefore
    | taken _ _ _ retired => exact absurd (retired ▸ hw) hbefore
    | given _ _ retired => exact absurd (retired ▸ hw) hbefore
    | recounted _ _ before _ => exact absurd before hbefore

theorem roomy_of_step (o : Orderly s) {e : Server.Event n} (ro : Roomy (s.step e)) : Roomy s := by
  have hmore := accepted_step o e
  unfold Roomy at *
  rw [cap_step o e] at ro
  omega

end Sinking

/-! ## 3. The loop of `route` -/

/-- The workers on which a worker's last `route` has failed: none when it is
called, one more with each send that fails. `route` begins one round of its
loop when it is called, and one with each of these. -/
def Pc.tried (pc : Pc n) (tried : List (Fin n)) : List (Fin n) :=
  match pc with
  | held => []
  | refused (.accepted _) _ => []
  | refused (.routing _ _) u => u :: tried
  | _ => tried

/-- The same beside a step of the server. -/
def Server.trying (s : Server n) (tried : Fin n → List (Fin n)) :
    Server.Event n → Fin n → List (Fin n)
  | .turn me _ => Function.update tried me ((s.worker me).pc.tried (tried me))
  | _ => tried

/-- And beside a run. -/
def Server.tried (s : Server n) (tried : Fin n → List (Fin n)) :
    List (Server.Event n) → Fin n → List (Fin n)
  | [] => tried
  | e :: es => (s.step e).tried (s.trying tried e) es

/-- Those workers are different, retired, and not the one that has a slot in
hand now. -/
structure Trail (s : Server n) (me : Fin n) (tried : List (Fin n)) : Prop where
  nodup : tried.Nodup
  retired : ∀ u ∈ tried, s.balance.retired u = true
  away : me ∉ tried
  fresh : ∀ u, (s.worker me).pc.slot me = some u → u ∉ tried

section Routing

variable {s : Server n} {me : Fin n} {i : Input} {tried : List (Fin n)}

theorem Trail.nil : Trail s me [] := ⟨.nil, nofun, nofun, nofun⟩

/-- Where the send has failed, the target is retired and another worker. -/
theorem refused_target (o : Orderly s) {h : Errand} {u : Fin n}
    (hpc : (s.worker me).pc = .refused h u) : s.balance.retired u = true ∧ u ≠ me := by
  have hclosed := o.refused me h u hpc
  refine ⟨retired_of_closed o hclosed, ?_⟩
  rintro rfl
  rw [o.closed u, hpc] at hclosed
  cases hclosed

/-- The slot in hand behind a turn was there before, or is the worker's own,
or is one that `reserve` has just found below the cap. -/
theorem slot_origin {t : Turn n} (m : Move s me i t) {u : Fin n}
    (h : t.worker.pc.slot me = some u) :
    (s.worker me).pc.slot me = some u ∨ u = me ∨ s.balance.count u < s.balance.cap := by
  cases m with
  | stay _ hslot => exact .inl (hslot ▸ h)
  | accept hslot => exact .inl (hslot ▸ h)
  | reserve v hcap _ hslot =>
      obtain rfl : v = u := Option.some.inj (hslot ▸ h)
      exact .inr (.inr hcap)
  | lose _ _ hslot => exact .inl (hslot ▸ h)
  | recv _ _ _ _ hslot =>
      obtain rfl : me = u := Option.some.inj (hslot ▸ h)
      exact .inr (.inl rfl)
  | recount _ _ hslot =>
      obtain rfl : me = u := Option.some.inj (hslot ▸ h)
      exact .inr (.inl rfl)
  | release _ _ hslot => rw [hslot] at h; cases h
  | serve _ _ hslot => rw [hslot] at h; cases h
  | send _ _ _ hslot => rw [hslot] at h; cases h
  | retire _ _ hslot => rw [hslot] at h; cases h

/-- A turn of the worker itself that does not change the list. -/
theorem Trail.turn_same (tr : Trail s me tried) (o : Orderly s) (su : AllSunk s) (ro : Roomy s) :
    Trail (s.step (.turn me i)) me tried where
  nodup := tr.nodup
  retired u hu := retired_step o _ (tr.retired u hu)
  away := tr.away
  fresh u hslot hu := by
    rw [step_turn_self] at hslot
    obtain hold | rfl | hroom := slot_origin (turn_move (i := i) o) hslot
    · exact tr.fresh u hold hu
    · exact tr.away hu
    · exact (su u (tr.retired u hu)).full ro hroom

/-- A turn of the worker itself. -/
theorem Trail.turn (tr : Trail s me tried) (o : Orderly s) (su : AllSunk s) (ro : Roomy s) :
    Trail (s.step (.turn me i)) me ((s.worker me).pc.tried tried) := by
  cases hpc : (s.worker me).pc with
  | held => exact .nil
  | refused h u =>
      cases h with
      | accepted c => exact .nil
      | routing c r =>
          obtain ⟨hretired, hne⟩ := refused_target o hpc
          have hslot : (s.worker me).pc.slot me = some u := by rw [hpc]; rfl
          have hfree : ((s.step (.turn me i)).worker me).pc.slot me = none := by
            rw [step_turn_self]
            simp only [Server.turn, hpc]
            rfl
          constructor
          · exact List.nodup_cons.mpr ⟨tr.fresh u hslot, tr.nodup⟩
          · intro v hv
            obtain rfl | hv := List.mem_cons.mp hv
            · exact retired_step o _ hretired
            · exact retired_step o _ (tr.retired v hv)
          · exact List.not_mem_cons_of_ne_of_not_mem (Ne.symm hne) tr.away
          · intro v hv
            rw [hfree] at hv
            cases hv
  | _ => exact tr.turn_same o su ro

/-- A step that does not move the worker on. -/
theorem Trail.other (tr : Trail s me tried) (o : Orderly s) {e : Server.Event n}
    (hpc : ((s.step e).worker me).pc = (s.worker me).pc) : Trail (s.step e) me tried where
  nodup := tr.nodup
  retired u hu := retired_step o e (tr.retired u hu)
  away := tr.away
  fresh u hslot := tr.fresh u (hpc ▸ hslot)

theorem trail_step {tried : Fin n → List (Fin n)} (o : Orderly s) (su : AllSunk s) (ro : Roomy s)
    (tr : ∀ v, Trail s v (tried v)) (e : Server.Event n) (v : Fin n) :
    Trail (s.step e) v (s.trying tried e v) := by
  cases e with
  | signal => exact (tr v).other o rfl
  | finish w c => exact (tr v).other o (finish_pc s w c v)
  | turn w i =>
      show Trail _ v (Function.update tried w ((s.worker w).pc.tried (tried w)) v)
      by_cases hv : v = w
      · subst hv
        rw [Function.update_self]
        exact (tr v).turn o su ro
      · rw [Function.update_of_ne hv]
        exact (tr v).other o (congrArg Worker.pc (step_turn_other s i hv))

theorem roomy_of_run (es : List (Server.Event n)) (o : Orderly s) (ro : Roomy (s.run es)) :
    Roomy s := by
  induction es generalizing s with
  | nil => exact ro
  | cons e es ih => exact roomy_of_step o (ih (orderly_step o e) ro)

/-- Along a run that leaves the sentinel room. -/
theorem sunk_and_trail_run (es : List (Server.Event n)) {tried : Fin n → List (Fin n)}
    (o : Orderly s) (bo : Borne s) (su : AllSunk s) (tr : ∀ v, Trail s v (tried v))
    (ro : Roomy (s.run es)) :
    AllSunk (s.run es) ∧ ∀ v, Trail (s.run es) v (s.tried tried es v) := by
  induction es generalizing s tried with
  | nil => exact ⟨su, tr⟩
  | cons e es ih =>
      have hroomy : Roomy s := roomy_of_run (e :: es) o ro
      exact ih (orderly_step o e) (borne_step bo e) (allSunk_step o bo su hroomy e)
        (trail_step o su hroomy tr e) ro

theorem routed_ne_placed (w : Worker n) (back : Option Handoff) (r : Route) (h : Errand)
    (u : Fin n) : (w.routed back r).pc ≠ .placed h u := by cases r <;> rintro ⟨⟩

theorem resume_ne_placed (w : Worker n) (next : Next) (h : Errand) (u : Fin n) :
    (w.resume next).pc ≠ .placed h u := by
  cases next with
  | loop => rintro ⟨⟩
  | routed r => exact routed_ne_placed w none r h u
  | drain => rintro ⟨⟩

theorem turnRecv_ne_placed {h : Errand} {u : Fin n} (hold : (s.worker me).pc ≠ .placed h u) :
    (s.turnRecv me).worker.pc ≠ .placed h u := by
  unfold Server.turnRecv
  split
  · exact hold
  · rintro ⟨⟩

theorem turnChanged_ne_placed (gone : Bool) (h : Errand) (u : Fin n) :
    (s.turnChanged me gone).worker.pc ≠ .placed h u := by
  unfold Server.turnChanged
  split <;> rintro ⟨⟩

theorem turnParked_ne_placed {h : Errand} {u : Fin n} (hold : (s.worker me).pc ≠ .placed h u)
    (br : Branch) : (s.turnParked me br).worker.pc ≠ .placed h u := by
  cases br with
  | changed gone => exact turnChanged_ne_placed gone h u
  | freed =>
      simp only [Server.turnParked]
      split
      · rintro ⟨⟩
      · exact hold
  | recv => exact turnRecv_ne_placed hold
  | sleep => rintro ⟨⟩
  | accept => exact hold
  | acceptError _ => exact hold

theorem turnAccepting_ne_placed {h : Errand} {u : Fin n} (hold : (s.worker me).pc ≠ .placed h u)
    (armed : Bool) (br : Branch) : (s.turnAccepting me armed br).worker.pc ≠ .placed h u := by
  cases br with
  | changed gone => exact turnChanged_ne_placed gone h u
  | freed => exact hold
  | recv => exact turnRecv_ne_placed hold
  | sleep =>
      simp only [Server.turnAccepting]
      split
      · rintro ⟨⟩
      · exact hold
  | accept => rintro ⟨⟩
  | acceptError pause => cases pause <;> rintro ⟨⟩

theorem turnNowhere_ne_placed (h' h : Errand) (u : Fin n) :
    (s.turnNowhere me i h').worker.pc ≠ .placed h u := by
  cases h' with
  | accepted c =>
      simp only [Server.turnNowhere]
      split <;> rintro ⟨⟩
  | routing c r => exact routed_ne_placed _ _ r h u

theorem turnPlaced_ne_placed (h' h : Errand) (v u : Fin n) :
    (s.turnPlaced me i v h').worker.pc ≠ .placed h u := by
  cases h' with
  | accepted c =>
      simp only [Server.turnPlaced]
      split
      · rintro ⟨⟩
      split <;> rintro ⟨⟩
  | routing c r =>
      simp only [Server.turnPlaced]
      split <;> rintro ⟨⟩

/-- `place` returns a worker only where `reserve` has found it below the
cap. -/
theorem room_of_placed {h : Errand} {u : Fin n}
    (hturn : (s.turn me i).worker.pc = .placed h u) : s.balance.count u < s.balance.cap := by
  revert hturn
  cases hpc : (s.worker me).pc with
  | exchange h' v seen rest =>
      simp only [Server.turn, hpc]
      split
      · rename_i hroom
        split
        · rename_i hseen
          rintro ⟨⟩
          rw [hseen.1]
          exact hroom
        · rintro ⟨⟩
      · rintro ⟨⟩
  | top =>
      simp only [Server.turn, hpc]
      split <;> rintro ⟨⟩
  | held =>
      simp only [Server.turn, hpc]
      split <;> rintro ⟨⟩
  | gate =>
      simp only [Server.turn, hpc]
      split
      · rintro ⟨⟩
      split <;> rintro ⟨⟩
  | room rest =>
      cases rest with
      | nil =>
          simp only [Server.turn, hpc]
          rintro ⟨⟩
      | cons _ rest =>
          simp only [Server.turn, hpc]
          split <;> rintro ⟨⟩
  | parked =>
      simp only [Server.turn, hpc]
      exact fun heq => absurd heq (turnParked_ne_placed (by rw [hpc]; rintro ⟨⟩) _)
  | accepting armed =>
      simp only [Server.turn, hpc]
      exact fun heq => absurd heq (turnAccepting_ne_placed (by rw [hpc]; rintro ⟨⟩) armed _)
  | mine h' =>
      simp only [Server.turn, hpc]
      split <;> rintro ⟨⟩
  | probe h' mine best rest =>
      cases rest with
      | nil =>
          simp only [Server.turn, hpc]
          rintro ⟨⟩
      | cons p rest =>
          simp only [Server.turn, hpc]
          rintro ⟨⟩
  | reserve h' rest =>
      cases rest with
      | nil =>
          simp only [Server.turn, hpc]
          exact fun heq => absurd heq (turnNowhere_ne_placed h' h u)
      | cons v rest =>
          simp only [Server.turn, hpc]
          rintro ⟨⟩
  | placed h' v =>
      simp only [Server.turn, hpc]
      exact fun heq => absurd heq (turnPlaced_ne_placed h' h v u)
  | sending h' v =>
      simp only [Server.turn, hpc]
      split
      · rintro ⟨⟩
      · cases h' with
        | accepted c => rintro ⟨⟩
        | routing c r => exact fun heq => absurd heq (routed_ne_placed _ none r h u)
  | adopting c next =>
      simp only [Server.turn, hpc]
      split
      · exact fun heq => absurd heq (resume_ne_placed _ next h u)
      · rintro ⟨⟩
  | releasing v next =>
      simp only [Server.turn, hpc]
      exact fun heq => absurd heq (resume_ne_placed _ next h u)
  | drainHeld =>
      simp only [Server.turn, hpc]
      split <;> rintro ⟨⟩
  | drain =>
      simp only [Server.turn, hpc]
      split
      · split
        · rintro ⟨⟩
        · exact fun heq => by cases hpc.symm.trans heq
      · rintro ⟨⟩
  | left =>
      simp only [Server.turn, hpc]
      exact fun heq => by cases hpc.symm.trans heq
  | _ =>
      simp only [Server.turn, hpc]
      rintro ⟨⟩

end Routing

/-! ## 4. Out for good -/

/-- What `retire(w)` is for: it lasts, `reserve(w)` finds no room, `place`
does not return `w` to anyone, and a load of `has_room` that returns the
count passes over it. -/
structure OutForGood (s : Server n) (w : Fin n) : Prop where
  lasts : ∀ e, (s.step e).balance.retired w = true
  full : ¬ s.balance.count w < s.balance.cap
  unplaced : ∀ me i h, (s.turn me i).worker.pc ≠ .placed h w
  uncounted : ∀ me i rest, (s.worker me).pc = .room (w :: rest) →
    i.seen = s.balance.count w → (s.turn me i).worker.pc = .room rest

theorem outForGood_of_full {s : Server n} {w : Fin n} (o : Orderly s)
    (hw : s.balance.retired w = true) (hfull : ¬ s.balance.count w < s.balance.cap) :
    OutForGood s w where
  lasts e := retired_step o e hw
  full := hfull
  unplaced _ _ _ hplaced := hfull (room_of_placed hplaced)
  uncounted me i rest hpc hseen := by
    simp only [Server.turn, hpc, hseen, if_neg hfull]
    rfl

/-- And of a run: whoever is retired in it is out for good, and the workers on
which a `route` has failed are different from each other and from its own, so
that it goes round its loop at most once for each worker. -/
structure RetiresForGood (maxConnections : UInt64) (es : List (Server.Event n)) : Prop where
  out : ∀ w, ((Server.start n maxConnections).run es).balance.retired w = true →
    OutForGood ((Server.start n maxConnections).run es) w
  rounds : ∀ me,
    let tried := (Server.start n maxConnections).tried (fun _ => []) es me
    tried.Nodup ∧ me ∉ tried ∧ tried.length + 1 ≤ n

/-- A run that leaves the sentinel room, whatever the interleaving. -/
theorem retiresForGood_of_le {maxConnections : UInt64} {es : List (Server.Event n)}
    (hroom : (max maxConnections 1).toNat
      + ((Server.start n maxConnections).run es).accepted ≤ retiredCount.toNat) :
    RetiresForGood maxConnections es := by
  have o := orderly_run n maxConnections es
  have ro : Roomy ((Server.start n maxConnections).run es) := by
    unfold Roomy
    rw [(exact_run n maxConnections es).2]
    exact hroom
  obtain ⟨su, tr⟩ := sunk_and_trail_run es (orderly_start n maxConnections)
    (borne_start n maxConnections) nofun (fun _ => Trail.nil) ro
  refine ⟨fun w hw => outForGood_of_full o hw ((su w hw).full ro), fun me => ?_⟩
  generalize (Server.start n maxConnections).tried (fun _ => []) es = tried at tr
  have hnodup : (me :: tried me).Nodup := List.nodup_cons.mpr ⟨(tr me).away, (tr me).nodup⟩
  have hlen : (me :: tried me).length ≤ Fintype.card (Fin n) := hnodup.length_le_card
  rw [Fintype.card_fin, List.length_cons] at hlen
  exact ⟨(tr me).nodup, (tr me).away, hlen⟩

end ArmatureH1.Workers
