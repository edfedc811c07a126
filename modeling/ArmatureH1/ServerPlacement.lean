/-
ArmatureH1.ServerPlacement — placements, one at a time.

`Balance.place` is `place` of `server.rs` as one thread runs it when no other
comes between: every load returns the counter, and every compare-exchange
that is tried succeeds. `place_alone` is the connection to the machine of
`ArmatureH1.Server`: a worker that takes its turns alone, from the first load
of `pick` on, does just that.

With at most `PICK_SAMPLES + 1` workers `pick` looks at all of them, and its
choice is a least loaded worker or, within the margin, the accepting one. The
invariant of a run of placements is `Even`: no two counts are further apart
than `HANDOFF_MARGIN`, and none is above the cap. The step from one placement
to the next (`Even.place`) is in the three ways in which `place` can succeed:
on the worker `pick` chose, on the accepting worker, and on the first one with
room. The last is reached only when the accepting worker is at its cap, and
then every other is at most one below it.
-/
import ArmatureH1.ServerSlots
import Mathlib.Logic.Relation

namespace ArmatureH1.Workers

variable {n : Nat}

/-! ## 1. `place` without interference -/

namespace Balance

/-- `Balance::reserve`. -/
def reserve (b : Balance n) (w : Fin n) : Option (Balance n) :=
  if b.count w < b.cap then some (b.exchange w (b.count w)) else none

/-- `pick` considers one worker after the other. -/
def considerAll (b : Balance n) (best : Best n) (ws : List (Fin n)) : Best n :=
  ws.foldl (fun best w => best.consider w (b.count w)) best

/-- `Balance::pick`, with the state it leaves the sampler in. -/
def pick (b : Balance n) (me : Fin n) (rng : UInt64) : Fin n × UInt64 :=
  let mine := b.count me
  if mine.toNat < handoffMargin then (me, rng)
  else
    let (ws, rng) := probes me rng
    ((b.considerAll ⟨me, mine⟩ ws).choose me mine, rng)

/-- `Balance::place`: the worker, the counts behind it and the sampler. -/
def place (b : Balance n) (me : Fin n) (rng : UInt64) : Option (Fin n) × Balance n × UInt64 :=
  let (target, rng) := b.pick me rng
  match (candidates me target).findSome? fun w => (b.reserve w).map (w, ·) with
  | some (w, b') => (some w, b', rng)
  | none => (none, b, rng)

/-- The counts after a placement. -/
def afterPlace (b : Balance n) (me : Fin n) (rng : UInt64) : Balance n := (b.place me rng).2.1

/-- Placements one after the other, each by a worker with some state of its
sampler. -/
def placements (b : Balance n) (mes : List (Fin n × UInt64)) : Balance n :=
  mes.foldl (fun b me => b.afterPlace me.1 me.2) b

/-- `place` succeeds on the first candidate with room. -/
theorem findSome?_reserve (b : Balance n) (ws : List (Fin n)) :
    (ws.findSome? fun w => (b.reserve w).map (w, ·))
      = (ws.find? fun w => b.count w < b.cap).map fun w => (w, b.exchange w (b.count w)) := by
  induction ws with
  | nil => rfl
  | cons w ws ih =>
      rw [List.findSome?_cons, List.find?_cons, reserve]
      by_cases hroom : b.count w < b.cap
      · simp only [if_pos hroom, decide_eq_true hroom, Option.map_some]
      · simp only [if_neg hroom, decide_eq_false hroom, Option.map_none]
        exact ih

end Balance

/-! ## 2. The machine runs `place` -/

namespace Server

/-- What a worker finds that takes its turns alone: each load returns the
counter, and no exchange fails. -/
def exactInput (s : Server n) (me : Fin n) : Input where
  branch := .sleep
  seen :=
    match (s.worker me).pc with
    | .mine _ => s.balance.count me
    | .probe _ _ _ (w :: _) => s.balance.count w
    | .reserve _ (w :: _) => s.balance.count w
    | _ => 0
  spurious := false
  converts := true

/-- One turn of `me`, with nobody else in between. -/
def Alone (me : Fin n) (s s' : Server n) : Prop := s' = s.step (.turn me (s.exactInput me))

/-- A server whose worker `me` has come to another point, and the counts. -/
def moved (s : Server n) (me : Fin n) (rng : UInt64) (b : Balance n) (pc : Pc n) : Server n :=
  { s with
    balance := b
    worker := Function.update s.worker me { s.worker me with rng, pc } }

section Alone

variable (s : Server n) (me : Fin n) (rng : UInt64) (b : Balance n)

/-- A turn of `me` from there is a turn to another such point. -/
theorem alone_moved {pc pc' : Pc n} {rng' : UInt64} {b' : Balance n}
    (h : (s.moved me rng b pc).turn me ((s.moved me rng b pc).exactInput me)
      = ⟨b', s.accepted, { s.worker me with rng := rng', pc := pc' }⟩) :
    Alone me (s.moved me rng b pc) (s.moved me rng' b' pc') := by
  unfold Alone
  show _ = (s.moved me rng b pc).apply me _
  rw [h]
  unfold Server.moved Server.apply
  simp only [Function.update_idem]

theorem moved_worker (pc : Pc n) :
    (s.moved me rng b pc).worker me = { s.worker me with rng, pc } := Function.update_self ..

/-- The loop of `pick`. -/
theorem probe_alone (h : Errand) (mine : UInt64) (ws : List (Fin n)) (best : Best n) :
    Relation.ReflTransGen (Alone me) (s.moved me rng b (.probe h mine best ws))
      (s.moved me rng b (.reserve h (candidates me ((b.considerAll best ws).choose me mine)))) := by
  induction ws generalizing best with
  | nil =>
      refine .single (alone_moved s me rng b ?_)
      simp only [Server.turn, moved_worker]
      rfl
  | cons w ws ih =>
      have hturn : Alone me (s.moved me rng b (.probe h mine best (w :: ws)))
          (s.moved me rng b (.probe h mine (best.consider w (b.count w)) ws)) := by
        refine alone_moved s me rng b ?_
        simp only [Server.turn, exactInput, moved_worker]
        rfl
      exact .head hturn (ih _)

/-- The reservations of `place`. -/
theorem reserve_alone (h : Errand) (ws : List (Fin n)) :
    Relation.ReflTransGen (Alone me) (s.moved me rng b (.reserve h ws))
      (match ws.findSome? fun w => (b.reserve w).map (w, ·) with
        | some (w, b') => s.moved me rng b' (.placed h w)
        | none => s.moved me rng b (.reserve h [])) := by
  induction ws with
  | nil => exact .refl
  | cons w ws ih =>
      have hload : Alone me (s.moved me rng b (.reserve h (w :: ws)))
          (s.moved me rng b (.exchange h w (b.count w) ws)) := by
        refine alone_moved s me rng b ?_
        simp only [Server.turn, exactInput, moved_worker]
        rfl
      refine .head hload ?_
      rw [List.findSome?_cons, Balance.reserve]
      by_cases hroom : b.count w < b.cap
      · simp only [if_pos hroom, Option.map_some]
        refine .single (alone_moved s me rng b ?_)
        simp only [Server.turn, moved_worker]
        show (if b.count w < b.cap then
          if b.count w = b.count w ∧ false = false then _ else _ else _) = _
        rw [if_pos hroom, if_pos ⟨rfl, rfl⟩]
        rfl
      · simp only [if_neg hroom, Option.map_none]
        refine .head (alone_moved s me rng b ?_) ih
        simp only [Server.turn, moved_worker]
        show (if b.count w < b.cap then _ else _) = _
        rw [if_neg hroom]
        rfl

/-- **A worker alone runs `place`**: from the first load of `pick` it comes to
where the connection is placed, or has no worker left to try, with the counts
and the sampler of `Balance.place`. -/
theorem place_alone (h : Errand) :
    Relation.ReflTransGen (Alone me) (s.moved me rng b (.mine h))
      (match b.place me rng with
        | (some w, b', rng') => s.moved me rng' b' (.placed h w)
        | (none, b', rng') => s.moved me rng' b' (.reserve h [])) := by
  have hpick : Relation.ReflTransGen (Alone me) (s.moved me rng b (.mine h))
      (s.moved me (b.pick me rng).2 b (.reserve h (candidates me (b.pick me rng).1))) := by
    unfold Balance.pick
    by_cases hfew : (b.count me).toNat < handoffMargin
    · simp only [if_pos hfew]
      refine .single (alone_moved s me rng b ?_)
      simp only [Server.turn, exactInput, moved_worker]
      show (if (b.count me).toNat < handoffMargin then _ else _) = _
      rw [if_pos hfew]
      rfl
    · simp only [if_neg hfew]
      refine .head ?_ (probe_alone s me _ b h (b.count me) _ _)
      refine alone_moved s me rng b ?_
      simp only [Server.turn, exactInput, moved_worker]
      show (if (b.count me).toNat < handoffMargin then _ else _) = _
      rw [if_neg hfew]
      rfl
  refine hpick.trans ?_
  have hreserve := reserve_alone s me (b.pick me rng).2 b h (candidates me (b.pick me rng).1)
  unfold Balance.place
  simp only
  cases hfound : (candidates me (b.pick me rng).1).findSome? fun w => (b.reserve w).map (w, ·) with
  | none =>
      rw [hfound] at hreserve
      exact hreserve
  | some found =>
      rw [hfound] at hreserve
      exact hreserve

end Alone

end Server

/-! ## 3. What `pick` chooses -/

namespace Balance

variable {b : Balance n} {me : Fin n}

/-- The count that comes out is that of a worker, and the least of those
considered. -/
theorem considerAll_least (b : Balance n) (ws : List (Fin n)) (best : Best n)
    (h : best.count = b.count best.worker) :
    (b.considerAll best ws).count = b.count (b.considerAll best ws).worker
      ∧ (b.considerAll best ws).count ≤ best.count
      ∧ ∀ w ∈ ws, (b.considerAll best ws).count ≤ b.count w := by
  induction ws generalizing best with
  | nil => exact ⟨h, UInt64.le_refl _, nofun⟩
  | cons w ws ih =>
      have hstep : (best.consider w (b.count w)).count
            = b.count (best.consider w (b.count w)).worker
          ∧ (best.consider w (b.count w)).count ≤ best.count
          ∧ (best.consider w (b.count w)).count ≤ b.count w := by
        unfold Best.consider
        split
        · rename_i hless
          exact ⟨rfl, UInt64.le_of_lt hless, UInt64.le_refl _⟩
        · rename_i hnot
          exact ⟨h, UInt64.le_refl _, UInt64.not_lt.mp hnot⟩
      obtain ⟨hcount, hbest, hw⟩ := hstep
      obtain ⟨hcount', hbest', hall⟩ := ih _ hcount
      refine ⟨hcount', UInt64.le_trans hbest' hbest, fun v hv => ?_⟩
      rcases List.mem_cons.mp hv with rfl | hv
      · exact UInt64.le_trans hbest' hw
      · exact hall v hv

/-- With few workers, `pick` stays when none is `HANDOFF_MARGIN` below the
accepting one, and goes to a least loaded one otherwise. -/
theorem pick_cases (hn : n ≤ pickSamples + 1) (b : Balance n) (me : Fin n) (rng : UInt64) :
    ((b.pick me rng).1 = me
        ∧ ∀ v, (b.count me).toNat < (b.count v).toNat + handoffMargin)
      ∨ ((b.count (b.pick me rng).1).toNat + handoffMargin ≤ (b.count me).toNat
        ∧ ∀ v, (b.count (b.pick me rng).1).toNat ≤ (b.count v).toNat) := by
  unfold pick
  by_cases hfew : (b.count me).toNat < handoffMargin
  · simp only [if_pos hfew, true_and]
    exact .inl fun v => by omega
  · simp only [if_neg hfew, probes, if_pos hn]
    have hleast := b.considerAll_least (List.finRange n) ⟨me, b.count me⟩ rfl
    generalize b.considerAll ⟨me, b.count me⟩ (List.finRange n) = best at hleast
    obtain ⟨hcount, hmine, hall⟩ := hleast
    have hle : best.count.toNat ≤ (b.count me).toNat := UInt64.le_iff_toNat_le.mp hmine
    have hleast : ∀ v, best.count.toNat ≤ (b.count v).toNat := fun v =>
      UInt64.le_iff_toNat_le.mp (hall v (List.mem_finRange v))
    unfold Best.choose
    split
    · rename_i hmargin
      refine .inr ⟨?_, ?_⟩
      · rw [← hcount]
        have hpos : 0 < handoffMargin := by decide
        omega
      · rw [← hcount]
        exact hleast
    · rename_i hmargin
      refine .inl ⟨rfl, fun v => ?_⟩
      have hv := hleast v
      omega

/-! ## 4. The margin -/

/-- The counts are within the margin of each other and within the cap. -/
structure Even (b : Balance n) : Prop where
  margin : ∀ u v, (b.count u).toNat ≤ (b.count v).toNat + handoffMargin
  capped : ∀ u, b.count u ≤ b.cap

theorem even_new (n : Nat) (cap : UInt64) : Even (new n cap) where
  margin _ _ := Nat.zero_le _
  capped _ := UInt64.le_iff_toNat_le.mpr (Nat.zero_le _)

/-- One more connection on a worker with room whose count was less than the
margin above every other. -/
theorem Even.exchange (e : Even b) {w : Fin n} (hroom : b.count w < b.cap)
    (hlow : ∀ v, (b.count w).toNat < (b.count v).toNat + handoffMargin) :
    Even (b.exchange w (b.count w)) := by
  have hself : (b.exchange w (b.count w)).count w = b.count w + 1 := Function.update_self ..
  have hother : ∀ v, v ≠ w → (b.exchange w (b.count w)).count v = b.count v :=
    fun v hv => Function.update_of_ne hv ..
  have hmore := toNat_add_one hroom
  have hgrow : ∀ v, (b.count v).toNat ≤ ((b.exchange w (b.count w)).count v).toNat := by
    intro v
    by_cases hv : v = w
    · rw [hv, hself]
      omega
    · rw [hother v hv]
  constructor
  · intro u v
    have hv := hgrow v
    by_cases hu : u = w
    · have hlow := hlow v
      rw [hu, hself]
      omega
    · have hmargin := e.margin u v
      rw [hother u hu]
      omega
  · intro u
    by_cases hu : u = w
    · rw [hu, hself]
      exact add_one_le hroom
    · rw [hother u hu]
      exact e.capped u

/-- Where `place` puts a connection, and when it cannot. -/
theorem place_eq (b : Balance n) (me : Fin n) (rng : UInt64) :
    b.place me rng =
      match (candidates me (b.pick me rng).1).find? fun w => b.count w < b.cap with
      | some w => (some w, b.exchange w (b.count w), (b.pick me rng).2)
      | none => (none, b, (b.pick me rng).2) := by
  unfold place
  simp only [findSome?_reserve]
  cases (candidates me (b.pick me rng).1).find? fun w => b.count w < b.cap <;> rfl

/-- A placement keeps the counts even. -/
theorem Even.place (hn : n ≤ pickSamples + 1) (e : Even b) (me : Fin n) (rng : UInt64) :
    Even (b.afterPlace me rng) := by
  unfold afterPlace
  rw [place_eq]
  rcases pick_cases hn b me rng with ⟨htarget, hstay⟩ | ⟨hmargin, hleast⟩
  · rw [htarget, candidates, if_pos rfl, List.nil_append, List.find?_cons]
    by_cases hroom : b.count me < b.cap
    · simp only [decide_eq_true hroom]
      exact e.exchange hroom hstay
    · -- the accepting worker is full, so every other is at most one short of it
      simp only [decide_eq_false hroom]
      cases hfound : (List.finRange n).find? fun w => b.count w < b.cap with
      | none => exact e
      | some w =>
          have hw : b.count w < b.cap := by simpa using List.find?_some hfound
          have hlt := UInt64.lt_iff_toNat_lt.mp hw
          have hfull := UInt64.le_iff_toNat_le.mp (UInt64.not_lt.mp hroom)
          refine e.exchange hw fun v => ?_
          have hv := hstay v
          omega
  · generalize (b.pick me rng).1 = target at hmargin hleast
    have hpos : 0 < handoffMargin := by decide
    have hne : target ≠ me := by
      rintro rfl
      omega
    have hroom : b.count target < b.cap := by
      rw [UInt64.lt_iff_toNat_lt]
      have hcap := UInt64.le_iff_toNat_le.mp (e.capped me)
      omega
    rw [candidates, if_neg hne, List.singleton_append, List.find?_cons]
    simp only [decide_eq_true hroom]
    refine e.exchange hroom fun v => ?_
    have hv := hleast v
    omega

/-- `place` fails only when every worker is full. -/
theorem full_of_place_eq_none {rng : UInt64} (h : (b.place me rng).1 = none) (w : Fin n) :
    b.cap ≤ b.count w := by
  rw [place_eq] at h
  cases hfound : (candidates me (b.pick me rng).1).find? fun w => b.count w < b.cap with
  | some w => rw [hfound] at h; cases h
  | none =>
      have hmem : w ∈ candidates me (b.pick me rng).1 := by simp [candidates]
      have hnot := List.find?_eq_none.mp hfound w hmem
      rw [decide_eq_true_eq] at hnot
      exact UInt64.not_lt.mp hnot

/-- **Placements keep the workers within the margin.** With no more workers
than `pick` looks at, and from no connections on, after any placements by any
workers in any order the largest and the smallest count are at most
`HANDOFF_MARGIN` apart, none is above the cap, and the next placement fails
only with every worker at the cap. -/
theorem placements_within_margin (n : Nat) (hn : n ≤ pickSamples + 1) (maxConnections : UInt64)
    (mes : List (Fin n × UInt64)) :
    let b := (new n maxConnections).placements mes
    (∀ u v, (b.count u).toNat ≤ (b.count v).toNat + handoffMargin)
      ∧ (∀ u, b.count u ≤ max maxConnections 1)
      ∧ ∀ me rng, (b.place me rng).1 = none → ∀ w, b.count w = max maxConnections 1 := by
  intro b
  have hrun : Even b ∧ b.cap = max maxConnections 1 := by
    refine List.foldlRecOn mes _ (motive := fun b => Even b ∧ b.cap = max maxConnections 1)
      ⟨even_new n maxConnections, rfl⟩ ?_
    rintro b ⟨e, hcap⟩ me _
    refine ⟨e.place hn me.1 me.2, ?_⟩
    rw [← hcap, afterPlace, place_eq]
    cases (candidates me.1 (b.pick me.1 me.2).1).find? fun w => b.count w < b.cap <;> rfl
  obtain ⟨e, hcap⟩ := hrun
  refine ⟨e.margin, fun u => hcap ▸ e.capped u, fun me rng hnone w => ?_⟩
  rw [← hcap]
  exact UInt64.le_antisymm (e.capped w) (full_of_place_eq_none hnone w)

/-- Four workers with room for two connections each. One of them accepts
three times and serves two, the third goes to the worker that has none. -/
theorem placements_within_margin_four :
    let b := (new 4 2).placements [(3, 1), (3, 1), (3, 1)]
    b.count 0 = 1 ∧ b.count 3 = 2 ∧ ∀ u v, (b.count u).toNat ≤ (b.count v).toNat + handoffMargin :=
  ⟨by decide, by decide,
    (placements_within_margin 4 (by decide) 2 [(3, 1), (3, 1), (3, 1)]).1⟩

end Balance

end ArmatureH1.Workers
