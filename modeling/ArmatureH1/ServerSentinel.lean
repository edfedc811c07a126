/-
ArmatureH1.ServerSentinel — the caps under which `RETIRED` works.

`ServerRetire` shows that a cap far enough below `RETIRED` keeps every retired
worker out. Here is the other half: one worker accepts and serves `k`
connections (`lone_serves`, once for each), is stopped, and then they all end,
so that its count is `RETIRED` less `k`. A cap above that counts the retired
worker as one with room. Both halves together are exact.

Nothing in the source keeps the cap down: `Balance::new` raises it to at least
one, and that is all.
-/
import ArmatureH1.ServerRetire

namespace ArmatureH1.Workers

variable {n : Nat}

/-! ## 1. A worker that is alone -/

section Lone

variable {cap rng count count' : UInt64} {k k' : Nat} {pc pc' : Pc 1} {live live' : List Handoff}
  {i : Input}

/-- The shared state of a worker that is alone. -/
def Balance.lone (cap count : UInt64) : Balance 1 :=
  { Balance.new 1 0 with count := fun _ => count, cap }

/-- A worker that is alone, with `k` connections accepted so far. -/
def Server.lone (cap rng : UInt64) (k : Nat) (pc : Pc 1) (count : UInt64)
    (live : List Handoff) : Server 1 where
  balance := .lone cap count
  worker _ := ⟨pc, none, rng, live⟩
  shutdown := false
  accepted := k
  finished := []

theorem lone_step
    (hturn : (Server.lone cap rng k pc count live).turn 0 i
      = ⟨.lone cap count', k', ⟨pc', none, rng, live'⟩⟩) :
    (Server.lone cap rng k pc count live).step (.turn 0 i)
      = .lone cap rng k' pc' count' live' := by
  have hworker : ∀ w : Worker 1,
      Function.update (Server.lone cap rng k pc count live).worker 0 w = fun _ => w :=
    fun w => Function.update_eq_const_of_subsingleton 0 w _
  rw [Server.step, hturn, Server.apply, hworker]
  rfl

theorem run_append (s : Server 1) (es es' : List (Server.Event 1)) :
    s.run (es ++ es') = (s.run es).run es' := List.foldl_append ..

/-- What a worker below its cap loads and waits for until it has accepted a
connection. -/
def arriving (seen : UInt64) : List (Server.Event 1) :=
  [.turn 0 (input .sleep seen), .turn 0 (input .sleep seen), .turn 0 (input .sleep seen),
    .turn 0 (input .sleep seen), .turn 0 (input .accept seen)]

theorem lone_arriving (hroom : count < cap) :
    (Server.lone cap rng k .top count live).run (arriving count)
      = .lone cap rng (k + 1) (.mine (.accepted k)) count live := by
  have hfull : ¬ cap ≤ count := by simpa using hroom
  have htop : (Server.lone cap rng k .top count live).step (.turn 0 (input .sleep count))
      = .lone cap rng k .held count live := lone_step rfl
  have hheld : (Server.lone cap rng k .held count live).step (.turn 0 (input .sleep count))
      = .lone cap rng k .gate count live := lone_step rfl
  have hgate : (Server.lone cap rng k .gate count live).step (.turn 0 (input .sleep count))
      = .lone cap rng k .arm count live := by
    refine lone_step ?_
    show Server.own _ (Worker.goto _ (if cap ≤ count then _ else _)) = _
    rw [if_neg hfull]
    rfl
  have harm : (Server.lone cap rng k .arm count live).step (.turn 0 (input .sleep count))
      = .lone cap rng k (.accepting false) count live := by
    refine lone_step ?_
    show Server.own _ (Worker.goto _ (.accepting (decide (cap ≤ count)))) = _
    rw [decide_eq_false hfull]
    rfl
  have haccept : (Server.lone cap rng k (.accepting false) count live).step
      (.turn 0 (input .accept count)) = .lone cap rng (k + 1) (.mine (.accepted k)) count live :=
    lone_step rfl
  simp only [Server.run, arriving, List.foldl_cons, List.foldl_nil, htop, hheld, hgate, harm,
    haccept]

/-- What it loads in `pick` when it is alone. -/
def picking (seen : UInt64) : List (Server.Event 1) :=
  let load := Server.Event.turn 0 (input .sleep seen)
  if seen.toNat < handoffMargin then [load] else [load, load, load]

theorem lone_picking (h : Errand) :
    (Server.lone cap rng k (.mine h) count live).run (picking count)
      = .lone cap rng k (.reserve h (candidates 0 0)) count live := by
  unfold picking
  split
  · rename_i hfew
    have hmine : (Server.lone cap rng k (.mine h) count live).step
        (.turn 0 (input .sleep count))
          = .lone cap rng k (.reserve h (candidates 0 0)) count live := by
      refine lone_step ?_
      show (if count.toNat < handoffMargin then _ else _) = _
      rw [if_pos hfew]
      rfl
    exact hmine
  · rename_i hmany
    have hmine : (Server.lone cap rng k (.mine h) count live).step
        (.turn 0 (input .sleep count))
          = .lone cap rng k (.probe h count ⟨0, count⟩ [0]) count live := by
      refine lone_step ?_
      show (if count.toNat < handoffMargin then _ else _) = _
      rw [if_neg hmany]
      rfl
    have hprobe : (Server.lone cap rng k (.probe h count ⟨0, count⟩ [0]) count live).step
        (.turn 0 (input .sleep count))
          = .lone cap rng k (.probe h count ⟨0, count⟩ []) count live := by
      refine lone_step ?_
      show Server.own _ (Worker.goto _ (.probe h count
        (if count < count then ⟨0, count⟩ else ⟨0, count⟩) [])) = _
      rw [ite_self]
      rfl
    have hchoose : (Server.lone cap rng k (.probe h count ⟨0, count⟩ []) count live).step
        (.turn 0 (input .sleep count))
          = .lone cap rng k (.reserve h (candidates 0 0)) count live := by
      refine lone_step ?_
      show Server.own _ (Worker.goto _ (.reserve h (candidates 0
        (if handoffMargin ≤ count.toNat - count.toNat then 0 else 0)))) = _
      rw [ite_self]
      rfl
    simp only [Server.run, List.foldl_cons, List.foldl_nil, hmine, hprobe, hchoose]

/-- The load and the compare-exchange of `reserve`, and the connection is
served. -/
def reserving (seen : UInt64) : List (Server.Event 1) :=
  [.turn 0 (input .sleep seen), .turn 0 (input .sleep seen), .turn 0 (input .sleep seen)]

theorem lone_reserving (hroom : count < cap) (c : Handoff) :
    (Server.lone cap rng k (.reserve (.accepted c) (candidates 0 0)) count live).run
        (reserving count)
      = .lone cap rng k .top (count + 1) (c :: live) := by
  have hload : (Server.lone cap rng k (.reserve (.accepted c) (candidates 0 0)) count live).step
      (.turn 0 (input .sleep count))
        = .lone cap rng k (.exchange (.accepted c) 0 count (List.finRange 1)) count live :=
    lone_step rfl
  have hexchange : (Server.lone cap rng k
      (.exchange (.accepted c) 0 count (List.finRange 1)) count live).step
        (.turn 0 (input .sleep count))
          = .lone cap rng k (.placed (.accepted c) 0) (count + 1) live := by
    refine lone_step ?_
    show (if count < cap then (if count = count ∧ false = false then _ else _) else _) = _
    rw [if_pos hroom, if_pos ⟨rfl, rfl⟩]
    have hbalance : (Balance.lone cap count).exchange 0 count = .lone cap (count + 1) := by
      unfold Balance.exchange
      rw [Function.update_eq_const_of_subsingleton]
      rfl
    exact congrArg (Turn.mk · k _) hbalance
  have hplaced : (Server.lone cap rng k (.placed (.accepted c) 0) (count + 1) live).step
      (.turn 0 (input .sleep count)) = .lone cap rng k .top (count + 1) (c :: live) :=
    lone_step rfl
  simp only [Server.run, reserving, List.foldl_cons, List.foldl_nil, hload, hexchange, hplaced]

/-- One connection accepted and served. -/
theorem lone_serves (hroom : count < cap) :
    (Server.lone cap rng k .top count live).run
        (arriving count ++ (picking count ++ reserving count))
      = .lone cap rng (k + 1) .top (count + 1) (k :: live) := by
  rw [run_append, lone_arriving hroom, run_append, lone_picking, lone_reserving hroom]

theorem start_one (maxConnections : UInt64) :
    Server.start 1 maxConnections
      = .lone (max maxConnections 1) (Worker.new (0 : Fin 1)).rng 0 .top 0 [] := by
  have hworker : (Worker.new : Fin 1 → Worker 1)
      = fun _ => ⟨.top, none, (Worker.new (0 : Fin 1)).rng, []⟩ := by
    funext w
    rw [Subsingleton.elim w 0]
    rfl
  unfold Server.start
  rw [hworker]
  rfl

/-- As many as the cap allows. -/
theorem lone_fills (maxConnections : UInt64) (k : Nat)
    (hk : k ≤ (max maxConnections 1).toNat) :
    ∃ es live, live.length = k
      ∧ (Server.start 1 maxConnections).run es
        = .lone (max maxConnections 1) (Worker.new (0 : Fin 1)).rng k .top (.ofNat k) live := by
  induction k with
  | zero => exact ⟨[], [], rfl, start_one maxConnections⟩
  | succ k ih =>
      obtain ⟨es, live, hlen, hrun⟩ := ih (by omega)
      have hlt := (max maxConnections 1).toNat_lt
      have hroom : UInt64.ofNat k < max maxConnections 1 := by
        rw [UInt64.lt_iff_toNat_lt, UInt64.toNat_ofNat']
        omega
      refine ⟨es ++ (arriving (.ofNat k) ++ (picking (.ofNat k) ++ reserving (.ofNat k))),
        k :: live, by rw [List.length_cons, hlen], ?_⟩
      rw [run_append, hrun, lone_serves hroom]
      congr 1
      exact (UInt64.ofNat_add k 1).symm

end Lone

/-! ## 2. The sentinel sinks -/

/-- A worker has ended a task. -/
theorem finish_head {s : Server n} {w : Fin n} {c : Handoff} {rest : List Handoff}
    (h : (s.worker w).live = c :: rest) :
    ((s.finish w c).worker w).live = rest
      ∧ (s.finish w c).balance.count w = s.balance.count w - 1
      ∧ (s.finish w c).balance.retired = s.balance.retired
      ∧ (s.finish w c).accepted = s.accepted
      ∧ (s.finish w c).balance.cap = s.balance.cap := by
  unfold Server.finish
  rw [if_pos (by rw [h]; exact List.mem_cons_self)]
  refine ⟨?_, Function.update_self .., rfl, rfl, rfl⟩
  show (Function.update s.worker w _ w).live = rest
  rw [Function.update_self]
  show (s.worker w).live.erase c = rest
  rw [h, List.erase_cons_head]

/-- When all its tasks have ended, its count has gone down by their number,
and that is all. -/
theorem finish_all (s : Server n) (w : Fin n) {live : List Handoff}
    (h : (s.worker w).live = live) (hcounted : live.length ≤ (s.balance.count w).toNat) :
    let t := s.run (live.map (Server.Event.finish w))
    (t.balance.count w).toNat = (s.balance.count w).toNat - live.length
      ∧ t.balance.retired = s.balance.retired ∧ t.accepted = s.accepted
      ∧ t.balance.cap = s.balance.cap := by
  induction live generalizing s with
  | nil => exact ⟨rfl, rfl, rfl, rfl⟩
  | cons c rest ih =>
      rw [List.length_cons] at hcounted
      obtain ⟨hlive, hcount, hretired, haccepted, hcap⟩ := finish_head h
      have hless : ((s.finish w c).balance.count w).toNat = (s.balance.count w).toNat - 1 := by
        rw [hcount]
        exact toNat_sub_one (by omega)
      obtain ⟨htail, hretired', haccepted', hcap'⟩ := ih _ hlive (by omega)
      refine ⟨?_, hretired'.trans hretired, haccepted'.trans haccepted, hcap'.trans hcap⟩
      rw [List.length_cons]
      refine htail.trans ?_
      omega

/-- The shutdown is signalled, and the worker retires. -/
def stopping : List (Server.Event 1) :=
  [.signal, .turn 0 (input .sleep 0), .turn 0 (input .sleep 0)]

/-- Any number of connections on one worker, within its cap: behind `retire`
they all end, and the sentinel has sunk by that number. -/
theorem sinks_by (maxConnections : UInt64) (k : Nat) (hk : k ≤ (max maxConnections 1).toNat)
    (hfew : k ≤ retiredCount.toNat) :
    ∃ es, let s := (Server.start 1 maxConnections).run es
      s.accepted = k ∧ s.balance.retired 0 = true
        ∧ (s.balance.count 0).toNat = retiredCount.toNat - k
        ∧ s.balance.cap = max maxConnections 1 := by
  obtain ⟨es, live, rfl, hrun⟩ := lone_fills maxConnections k hk
  refine ⟨es ++ (stopping ++ live.map (Server.Event.finish 0)), ?_⟩
  rw [run_append, hrun, run_append]
  obtain ⟨hcount, hretired, haccepted, hcap⟩ := finish_all
    ((Server.lone (max maxConnections 1) (Worker.new (0 : Fin 1)).rng live.length .top
      (.ofNat live.length) live).run stopping) 0 rfl hfew
  exact ⟨haccepted, congrFun hretired 0, hcount, hcap⟩

/-! ## 3. The caps under which a retired worker is out -/

/-- For any number of connections below `2 ^ 32`: retirement is for good in
every run that accepts no more of them if and only if the cap and that number
are together at most `RETIRED`. -/
theorem retired_out_for_good (maxConnections : UInt64) (connections : Nat)
    (hfew : connections < 2 ^ 32) :
    (∀ (n : Nat) (es : List (Server.Event n)),
        ((Server.start n maxConnections).run es).accepted ≤ connections →
          RetiresForGood maxConnections es)
      ↔ (max maxConnections 1).toNat + connections ≤ retiredCount.toNat := by
  have hretired := toNat_retiredCount
  constructor
  · intro hall
    by_contra hover
    obtain ⟨es, haccepted, hout, hcount, hcap⟩ :=
      sinks_by maxConnections connections (by omega) (by omega)
    refine ((hall 1 es (Nat.le_of_eq haccepted)).out 0 hout).full ?_
    rw [UInt64.lt_iff_toNat_lt, hcap, hcount]
    omega
  · intro hroom n es haccepted
    exact retiresForGood_of_le (Nat.le_trans (Nat.add_le_add_left haccepted _) hroom)

/-- The first worker, at its cap, reserves on the second one, which is stopped
before the connection is sent. The send fails, and `route` has it. -/
def bouncedRun : List (Server.Event 2) :=
  let load seen := Server.Event.turn first (input .sleep seen)
  [load 0, load 0, load 0, load 0, .turn first (input .accept 0),
    load 0, load 0, load 0, load 0,
    load 0, load 0, load 1, load 1, load 0, load 1, .turn first (input .accept 0),
    load 1, load 1, load 1, load 1, load 1, load 0, load 0,
    .signal, .turn second (input .sleep 0), .turn second (input .sleep 0),
    .turn second (input .sleep 0),
    load 0, load 0, load 0]

theorem retired_out_for_good_bounced :
    (((Server.start 2 0).run bouncedRun).worker 0).pc = .mine (.routing 1 .bounced)
      ∧ ((Server.start 2 0).run bouncedRun).balance.retired 1 = true
      ∧ RetiresForGood 0 bouncedRun :=
  ⟨by decide, by decide,
    (retired_out_for_good 0 2 (by decide)).mpr (by decide) 2 bouncedRun (by decide)⟩

/-- The first worker serves two connections and is about to reserve on the
second one for the third, which retires in between. -/
def pickedRun : List (Server.Event 2) :=
  let load seen := Server.Event.turn first (input .sleep seen)
  let serve seen := [load seen, load seen, load seen, load seen, .turn first (input .accept 0),
    load seen, load seen, load seen, load seen]
  serve 0 ++ serve 1 ++ [load 2, load 2, load 2, load 2, .turn first (input .accept 0),
    load 2, load 2, load 0, load 0,
    .signal, .turn second (input .sleep 0), .turn second (input .sleep 0), load retiredCount]

/-- With a cap above `RETIRED`, `reserve` succeeds on a retired worker. -/
theorem retired_placed_above_sentinel :
    ¬ ∀ (n : Nat) (maxConnections : UInt64) (es : List (Server.Event n)),
      ((Server.start n maxConnections).run es).accepted < 2 ^ 32 →
        RetiresForGood maxConnections es := by
  intro hall
  have hruns := hall 2 0xFFFFFFFFFFFFFFFF pickedRun (by decide +kernel)
  exact (hruns.out 1 (by decide +kernel)).unplaced 0 (input .sleep 0) (.accepted 2)
    (by decide +kernel)

end ArmatureH1.Workers
