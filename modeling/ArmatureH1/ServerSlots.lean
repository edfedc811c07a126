/-
ArmatureH1.ServerSlots — the connection cap is exact.

A worker's count stands for connections spread over the whole server:
those it serves, those queued for it, and those that some worker is about to
serve, send or give up, with a slot on it in hand. `slots` adds these up, and
`Posting` lists what a step can do to this number and to the count together;
`posting_apply` reads it off the moves of `ServerMoves`. `Exact` says that the
count of a worker that is not retired is the slots taken and at most the cap:
it cannot be released below zero, and it grows only where the
compare-exchange saw it below the cap.

A retired worker's count is a sentinel and stands for nothing, so `Exact`
leaves it out.
-/
import ArmatureH1.ServerMoves
import ArmatureH1.Lib.Ledger
import Mathlib.Algebra.BigOperators.Group.Finset.Piecewise

namespace ArmatureH1.Workers

variable {n : Nat}

/-! ## 1. Slots -/

/-- How many workers have a slot on `u` in hand. -/
def Server.inHand (s : Server n) (u : Fin n) : Nat :=
  (Finset.univ.filter fun v => (s.worker v).pc.slot v = some u).card

/-- The slots taken on `u`: connections it serves, handoffs queued for it,
and slots in hand. -/
def Server.slots (s : Server n) (u : Fin n) : Nat :=
  (s.worker u).live.length + (s.balance.inbox u).length + s.inHand u

/-- Whether a slot is one on `u`. -/
def slotOn (u : Fin n) (slot : Option (Fin n)) : Nat := if slot = some u then 1 else 0

@[simp] theorem slotOn_none (u : Fin n) : slotOn u none = 0 := rfl

@[simp] theorem slotOn_self (u : Fin n) : slotOn u (some u) = 1 := if_pos rfl

theorem slotOn_of_ne {u v : Fin n} (h : v ≠ u) : slotOn u (some v) = 0 :=
  if_neg fun heq => h (Option.some.inj heq)

section Slots

variable {s : Server n} {me : Fin n} {t : Turn n}

theorem inHand_eq_total (s : Server n) (u : Fin n) :
    s.inHand u = Ledger.total fun v => slotOn u ((s.worker v).pc.slot v) :=
  Finset.card_filter _ _

/-- A turn changes the slots in hand by its own. -/
theorem inHand_apply (s : Server n) (me : Fin n) (t : Turn n) (u : Fin n) :
    (s.apply me t).inHand u + slotOn u ((s.worker me).pc.slot me)
      = s.inHand u + slotOn u (t.worker.pc.slot me) := by
  have hupd : (fun v => slotOn u (((s.apply me t).worker v).pc.slot v))
      = Function.update (fun v => slotOn u ((s.worker v).pc.slot v)) me
          (slotOn u (t.worker.pc.slot me)) := by
    funext v
    exact Function.apply_update (fun v (w : Worker n) => slotOn u (w.pc.slot v)) ..
  rw [inHand_eq_total, inHand_eq_total, hupd]
  exact Ledger.total_update (fun v => slotOn u ((s.worker v).pc.slot v)) me _

theorem live_apply (hlive : t.worker.live = (s.worker me).live) (u : Fin n) :
    ((s.apply me t).worker u).live = (s.worker u).live := by
  exact update_worker Worker.live hlive u

/-- A turn that starts no task changes `slots` by what it does to the inbox
and to the slot in hand. -/
theorem slots_apply (hlive : t.worker.live = (s.worker me).live) (u : Fin n) :
    (s.apply me t).slots u + (s.balance.inbox u).length + slotOn u ((s.worker me).pc.slot me)
      = s.slots u + (t.balance.inbox u).length + slotOn u (t.worker.pc.slot me) := by
  have hhand := inHand_apply s me t u
  have hinbox : (s.apply me t).balance.inbox u = t.balance.inbox u := rfl
  rw [Server.slots, Server.slots, live_apply hlive u, hinbox]
  omega

/-- The same for a turn that leaves the inbox of `u` alone. -/
theorem slots_apply_of_inbox (hlive : t.worker.live = (s.worker me).live) {u : Fin n}
    (hinbox : t.balance.inbox u = s.balance.inbox u) :
    (s.apply me t).slots u + slotOn u ((s.worker me).pc.slot me)
      = s.slots u + slotOn u (t.worker.pc.slot me) := by
  have hslots := slots_apply hlive u
  rw [hinbox] at hslots
  omega

end Slots

/-! ## 2. Counting modulo `2 ^ 64` -/

theorem toNat_add_one {a cap : UInt64} (h : a < cap) : (a + 1).toNat = a.toNat + 1 := by
  have hlt : a.toNat < cap.toNat := UInt64.lt_iff_toNat_lt.mp h
  have hcap := cap.toNat_lt
  rw [UInt64.toNat_add]
  exact Nat.mod_eq_of_lt (by show a.toNat + 1 < _; omega)

theorem toNat_sub_one {a : UInt64} (h : 0 < a.toNat) : (a - 1).toNat = a.toNat - 1 :=
  UInt64.toNat_sub_of_le a 1 (UInt64.le_iff_toNat_le.mpr h)

theorem add_one_le {a cap : UInt64} (h : a < cap) : a + 1 ≤ cap := by
  rw [UInt64.le_iff_toNat_le, toNat_add_one h]
  exact UInt64.lt_iff_toNat_lt.mp h

theorem sub_one_le {a cap : UInt64} (hpos : 0 < a.toNat) (h : a ≤ cap) : a - 1 ≤ cap := by
  rw [UInt64.le_iff_toNat_le] at h ⊢
  rw [toNat_sub_one hpos]
  omega

/-! ## 3. What a step does to the books of a worker -/

/-- What a step can do to the slots taken on a worker and to its count. -/
inductive Posting (s s' : Server n) (u : Fin n) : Prop where
  /-- Nothing. -/
  | same (slots : s'.slots u = s.slots u) (count : s'.balance.count u = s.balance.count u)
      (retired : s'.balance.retired u = s.balance.retired u)
  /-- `reserve` has found room. -/
  | taken (slots : s'.slots u = s.slots u + 1)
      (count : s'.balance.count u = s.balance.count u + 1)
      (room : s.balance.count u < s.balance.cap)
      (retired : s'.balance.retired u = s.balance.retired u)
  /-- `release` has given a slot back. -/
  | given (slots : s'.slots u + 1 = s.slots u)
      (count : s'.balance.count u = s.balance.count u - 1)
      (retired : s'.balance.retired u = s.balance.retired u)
  /-- A retired worker has counted a connection again. -/
  | recounted (slots : s'.slots u ≤ s.slots u + 1)
      (count : s'.balance.count u = s.balance.count u + 1)
      (before : s.balance.retired u = true)
      (retired : s'.balance.retired u = s.balance.retired u)
  /-- `retire` has overwritten the count. -/
  | retired (count : s'.balance.count u = retiredCount) (retired : s'.balance.retired u = true)

section Postings

variable {s : Server n} {me : Fin n} {i : Input} {t : Turn n}

theorem posting_stay {b : Balance n} {w : Worker n} (hbooks : s.balance.SameBooks b)
    (hslot : w.pc.slot me = (s.worker me).pc.slot me) (hlive : w.live = (s.worker me).live)
    {k : Nat} (u : Fin n) : Posting s (s.apply me ⟨b, k, w⟩) u := by
  have hslots := slots_apply_of_inbox (t := ⟨b, k, w⟩) hlive (congrFun hbooks.inbox u)
  simp only [hslot] at hslots
  exact .same (by omega) (congrFun hbooks.count u) (congrFun hbooks.retired u)

theorem posting_reserve {w : Worker n} (v : Fin n)
    (hcap : s.balance.count v < s.balance.cap) (hold : (s.worker me).pc.slot me = none)
    (hslot : w.pc.slot me = some v) (hlive : w.live = (s.worker me).live) (u : Fin n) :
    Posting s (s.apply me ⟨s.balance.exchange v (s.balance.count v), s.accepted, w⟩) u := by
  have hslots := slots_apply_of_inbox (u := u)
    (t := ⟨s.balance.exchange v (s.balance.count v), s.accepted, w⟩) hlive rfl
  rw [hold, hslot, slotOn_none] at hslots
  by_cases huv : u = v
  · subst huv
    rw [slotOn_self] at hslots
    exact .taken (by omega) (Function.update_self ..) hcap rfl
  · rw [slotOn_of_ne (Ne.symm huv)] at hslots
    exact .same (by omega) (Function.update_of_ne huv ..) rfl

theorem posting_release {w : Worker n} (v : Fin n)
    (hold : (s.worker me).pc.slot me = some v) (hslot : w.pc.slot me = none)
    (hlive : w.live = (s.worker me).live) (u : Fin n) :
    Posting s (s.apply me ⟨s.balance.release v, s.accepted, w⟩) u := by
  have hslots := slots_apply_of_inbox (u := u)
    (t := ⟨s.balance.release v, s.accepted, w⟩) hlive rfl
  rw [hold, hslot, slotOn_none] at hslots
  by_cases huv : u = v
  · subst huv
    rw [slotOn_self] at hslots
    exact .given (by omega) (Function.update_self ..) rfl
  · rw [slotOn_of_ne (Ne.symm huv)] at hslots
    exact .same (by omega) (Function.update_of_ne huv ..) rfl

theorem posting_serve {w : Worker n} {c : Handoff}
    (hold : (s.worker me).pc.slot me = some me) (hslot : w.pc.slot me = none)
    (hlive : w.live = c :: (s.worker me).live) (u : Fin n) :
    Posting s (s.apply me ⟨s.balance, s.accepted, w⟩) u := by
  have hhand := inHand_apply s me ⟨s.balance, s.accepted, w⟩ u
  rw [hold, hslot, slotOn_none] at hhand
  refine .same ?_ rfl rfl
  show (Function.update s.worker me w u).live.length + (s.balance.inbox u).length
      + (s.apply me ⟨s.balance, s.accepted, w⟩).inHand u = s.slots u
  unfold Server.slots
  by_cases hme : u = me
  · subst hme
    rw [slotOn_self] at hhand
    rw [Function.update_self, hlive, List.length_cons]
    omega
  · rw [slotOn_of_ne (Ne.symm hme)] at hhand
    rw [Function.update_of_ne hme]
    omega

theorem posting_send {w : Worker n} (v : Fin n) (c : Handoff)
    (hold : (s.worker me).pc.slot me = some v) (hslot : w.pc.slot me = none)
    (hlive : w.live = (s.worker me).live) (u : Fin n) :
    Posting s (s.apply me ⟨s.balance.send v c, s.accepted, w⟩) u := by
  have hslots := slots_apply (t := ⟨s.balance.send v c, s.accepted, w⟩) hlive u
  rw [hold, hslot, slotOn_none] at hslots
  refine .same ?_ rfl rfl
  by_cases huv : u = v
  · subst huv
    have hinbox : ((s.balance.send u c).inbox u).length = (s.balance.inbox u).length + 1 := by
      show (Function.update s.balance.inbox u (s.balance.inbox u ++ [c]) u).length = _
      rw [Function.update_self, List.length_append, List.length_singleton]
    rw [slotOn_self] at hslots
    simp only [hinbox] at hslots
    omega
  · have hinbox : (s.balance.send v c).inbox u = s.balance.inbox u :=
      Function.update_of_ne huv ..
    rw [slotOn_of_ne (Ne.symm huv)] at hslots
    simp only [hinbox] at hslots
    omega

theorem posting_recv {w : Worker n} {c : Handoff} {rest : List Handoff}
    (hinbox : s.balance.inbox me = c :: rest) (hold : (s.worker me).pc.slot me = none)
    (hslot : w.pc.slot me = some me) (hlive : w.live = (s.worker me).live) (u : Fin n) :
    Posting s (s.apply me ⟨s.balance.recv me rest, s.accepted, w⟩) u := by
  have hslots := slots_apply (t := ⟨s.balance.recv me rest, s.accepted, w⟩) hlive u
  rw [hold, hslot, slotOn_none] at hslots
  refine .same ?_ rfl rfl
  by_cases hme : u = me
  · subst hme
    have hbefore : (s.balance.inbox u).length = rest.length + 1 := by
      rw [hinbox, List.length_cons]
    have hafter : (s.balance.recv u rest).inbox u = rest := Function.update_self ..
    rw [slotOn_self, hbefore] at hslots
    simp only [hafter] at hslots
    omega
  · have hother : (s.balance.recv me rest).inbox u = s.balance.inbox u :=
      Function.update_of_ne hme ..
    rw [slotOn_of_ne (Ne.symm hme)] at hslots
    simp only [hother] at hslots
    omega

/-- The count of one worker is overwritten; the others keep theirs. -/
theorem posting_retire {w : Worker n} (v : Fin n)
    (hold : ∀ u, (s.worker me).pc.slot me = some u → u = v) (hslot : w.pc.slot me = none)
    (hlive : w.live = (s.worker me).live) (u : Fin n) :
    Posting s (s.apply me ⟨s.balance.retire v, s.accepted, w⟩) u := by
  have hslots := slots_apply_of_inbox (u := u)
    (t := ⟨s.balance.retire v, s.accepted, w⟩) hlive rfl
  by_cases huv : u = v
  · subst huv
    exact .retired (Function.update_self ..) (Function.update_self ..)
  · have hnone : slotOn u ((s.worker me).pc.slot me) = 0 := if_neg fun heq => huv (hold u heq)
    rw [hnone, hslot, slotOn_none] at hslots
    exact .same (by omega) (Function.update_of_ne huv ..) (Function.update_of_ne huv ..)

theorem posting_recount {w : Worker n} (hretired : s.balance.retired me = true)
    (hold : ∀ u, (s.worker me).pc.slot me = some u → u = me)
    (hslot : w.pc.slot me = some me) (hlive : w.live = (s.worker me).live) (u : Fin n) :
    Posting s (s.apply me ⟨s.balance.recount me, s.accepted, w⟩) u := by
  have hslots := slots_apply_of_inbox (u := u)
    (t := ⟨s.balance.recount me, s.accepted, w⟩) hlive rfl
  rw [hslot] at hslots
  by_cases hme : u = me
  · subst hme
    rw [slotOn_self] at hslots
    exact .recounted (by omega) (Function.update_self ..) hretired rfl
  · have hnone : slotOn u ((s.worker me).pc.slot me) = 0 := if_neg fun heq => hme (hold u heq)
    rw [hnone, slotOn_of_ne (Ne.symm hme)] at hslots
    exact .same (by omega) (Function.update_of_ne hme ..) rfl

/-- Every move is one of these, for every worker. -/
theorem posting_apply (m : Move s me i t) (u : Fin n) : Posting s (s.apply me t) u := by
  cases m with
  | stay hbooks hslot hlive _ => exact posting_stay hbooks hslot hlive u
  | accept hslot hlive _ => exact posting_stay (.refl _) hslot hlive u
  | reserve v hcap hold hslot hlive _ => exact posting_reserve v hcap hold hslot hlive u
  | release v hold hslot hlive _ => exact posting_release v hold hslot hlive u
  | lose c _ hslot hlive _ => exact posting_stay (.refl _) hslot hlive u
  | serve c hold hslot hlive _ => exact posting_serve hold hslot hlive u
  | send v c hold hslot hlive _ => exact posting_send v c hold hslot hlive u
  | recv c rest hinbox hold hslot hlive _ => exact posting_recv hinbox hold hslot hlive u
  | retire v hold hslot hlive _ => exact posting_retire v hold hslot hlive u
  | recount hretired hold hslot hlive _ => exact posting_recount hretired hold hslot hlive u

/-- A connection that ends gives its own slot back. -/
theorem posting_finish (s : Server n) (w : Fin n) (c : Handoff) (u : Fin n) :
    Posting s (s.finish w c) u := by
  have hhand : (s.finish w c).inHand u = s.inHand u := by
    simp only [Server.inHand, finish_pc]
  unfold Server.finish at hhand ⊢
  split
  · rename_i hc
    rw [if_pos hc] at hhand
    by_cases huw : u = w
    · subst huw
      refine .given ?_ (Function.update_self ..) rfl
      rw [Server.slots, Server.slots, hhand]
      show (Function.update s.worker u _ u).live.length + (s.balance.inbox u).length + _ + 1 = _
      rw [Function.update_self]
      have hlen := List.length_erase_add_one hc
      simp only
      omega
    · refine .same ?_ (Function.update_of_ne huw ..) rfl
      rw [Server.slots, Server.slots, hhand]
      show (Function.update s.worker w _ u).live.length + (s.balance.inbox u).length + _ = _
      rw [Function.update_of_ne huw]
  · exact .same rfl rfl rfl

theorem posting_step (o : Orderly s) (e : Server.Event n) (u : Fin n) :
    Posting s (s.step e) u := by
  cases e with
  | signal => exact .same rfl rfl rfl
  | finish w c => exact posting_finish s w c u
  | turn w i => exact posting_apply (turn_move (i := i) o) u

end Postings

/-! ## 4. The count of a worker that is not retired -/

/-- The count is the slots taken, and at most the cap. -/
def Exact (s : Server n) : Prop :=
  ∀ u, s.balance.retired u = false →
    (s.balance.count u).toNat = s.slots u ∧ s.balance.count u ≤ s.balance.cap

section Exactness

variable {s : Server n} {me : Fin n} {i : Input} {t : Turn n}

theorem cap_apply (m : Move s me i t) : t.balance.cap = s.balance.cap := by
  cases m with
  | stay hbooks => exact hbooks.cap
  | _ => rfl

theorem cap_step (o : Orderly s) (e : Server.Event n) :
    (s.step e).balance.cap = s.balance.cap := by
  cases e with
  | signal => rfl
  | finish w c =>
      show (s.finish w c).balance.cap = _
      unfold Server.finish
      split <;> rfl
  | turn w i => exact cap_apply (turn_move (i := i) o)

/-- Counts stay exact: a release finds the count above zero, because the slot
it gives back is counted. -/
theorem exact_step (o : Orderly s) (x : Exact s) (e : Server.Event n) : Exact (s.step e) := by
  intro u hu
  rw [cap_step o e]
  cases posting_step o e u with
  | same slots count retired =>
      rw [slots, count]
      exact x u (retired ▸ hu)
  | taken slots count room retired =>
      rw [slots, count, toNat_add_one room, (x u (retired ▸ hu)).1]
      exact ⟨rfl, add_one_le room⟩
  | given slots count retired =>
      obtain ⟨hexact, hle⟩ := x u (retired ▸ hu)
      have hpos : 0 < (s.balance.count u).toNat := by omega
      rw [count, toNat_sub_one hpos]
      exact ⟨by omega, sub_one_le hpos hle⟩
  | recounted _ _ before retired =>
      rw [retired, before] at hu
      cases hu
  | retired _ retired =>
      rw [retired] at hu
      cases hu

/-- At the start nothing is counted and no slot is taken. -/
theorem exact_start (n : Nat) (maxConnections : UInt64) :
    Exact (Server.start n maxConnections) := by
  intro u _
  have hslots : (Server.start n maxConnections).slots u = 0 := by
    have hhand : (Server.start n maxConnections).inHand u = 0 :=
      Finset.card_eq_zero.mpr (Finset.filter_eq_empty_iff.mpr fun v _ => nofun)
    rw [Server.slots, hhand]
    rfl
  rw [hslots]
  exact ⟨rfl, UInt64.le_iff_toNat_le.mpr (Nat.zero_le _)⟩

/-- A slot in hand is a slot taken. -/
theorem slots_pos {u : Fin n} (h : (s.worker me).pc.slot me = some u) : 0 < s.slots u := by
  have hmem : me ∈ Finset.univ.filter fun v => (s.worker v).pc.slot v = some u :=
    Finset.mem_filter.mpr ⟨Finset.mem_univ me, h⟩
  have hpos : 0 < s.inHand u := Finset.card_pos.mpr ⟨me, hmem⟩
  unfold Server.slots
  omega

/-- Along a run. -/
theorem exact_run (n : Nat) (maxConnections : UInt64) (es : List (Server.Event n)) :
    Exact ((Server.start n maxConnections).run es)
      ∧ ((Server.start n maxConnections).run es).balance.cap = max maxConnections 1 := by
  refine And.right (run_induction
    (P := fun s : Server n => Orderly s ∧ Exact s ∧ s.balance.cap = max maxConnections 1)
    ⟨orderly_start n maxConnections, exact_start n maxConnections, rfl⟩ ?_)
  rintro s e _ ⟨o, x, hcap⟩
  exact ⟨orderly_step o e, exact_step o x e, (cap_step o e).trans hcap⟩

end Exactness

/-! ## 5. The cap -/

/-- In every interleaving, the count of a worker that is not retired is the
number of connections it serves, of handoffs queued for it and of slots on it
in some worker's hands; it never exceeds the cap; and wherever a slot of that
worker is about to be released, by a failed conversion or with the end of a
connection, the count is not zero. -/
theorem count_exact_and_capped (n : Nat) (maxConnections : UInt64)
    (es : List (Server.Event n)) (u : Fin n)
    (hretired : ((Server.start n maxConnections).run es).balance.retired u = false) :
    let s := (Server.start n maxConnections).run es
    (s.balance.count u).toNat
        = (s.worker u).live.length + (s.balance.inbox u).length + s.inHand u
      ∧ s.balance.count u ≤ max maxConnections 1
      ∧ (∀ v next, (s.worker v).pc = .releasing u next → 0 < s.balance.count u)
      ∧ ∀ c ∈ (s.worker u).live, 0 < s.balance.count u := by
  intro s
  obtain ⟨x, hcap⟩ := exact_run n maxConnections es
  obtain ⟨hcount, hle⟩ := x u hretired
  have hpos : 0 < s.slots u → 0 < s.balance.count u := by
    intro hslots
    rw [UInt64.lt_iff_toNat_lt]
    show 0 < (s.balance.count u).toNat
    rw [hcount]
    exact hslots
  refine ⟨hcount, hcap ▸ hle, ?_, ?_⟩
  · intro v next hpc
    have hslot : (s.worker v).pc.slot v = some u := by rw [hpc]; rfl
    exact hpos (slots_pos hslot)
  · intro c hc
    have hlen := List.length_pos_of_mem hc
    refine hpos ?_
    unfold Server.slots
    omega

/-- A turn that finds `branch` ready, or loads `seen`. -/
def input (branch : Branch) (seen : UInt64) : Input := ⟨branch, seen, false, true⟩

/-- The workers of the runs below. -/
def first : Fin 2 := 0

def second : Fin 2 := 1

/-- Two workers with room for one connection each. The first one accepts and
serves a connection, finds itself at the cap but the other with room, accepts
another one, and sends it over. -/
def handoffRun : List (Server.Event 2) :=
  let load seen := Server.Event.turn 0 (input .sleep seen)
  [load 0, load 0, load 0, load 0, .turn 0 (input .accept 0),
    load 0, load 0, load 0, load 0,
    load 0, load 0, load 1, load 1, load 0, load 1, .turn 0 (input .accept 0),
    load 1, load 1, load 1, load 1, load 1, load 0, load 0, load 0, load 0]

theorem count_exact_and_capped_handoff :
    let s := (Server.start 2 0).run handoffRun
    s.balance.retired 1 = false ∧ s.balance.count 1 = 1 ∧ s.balance.inbox 1 = [1]
      ∧ (s.balance.count 1).toNat
        = (s.worker 1).live.length + (s.balance.inbox 1).length + s.inHand 1 :=
  ⟨by decide, by decide, by decide,
    (count_exact_and_capped 2 0 handoffRun 1 (by decide)).1⟩

end ArmatureH1.Workers
