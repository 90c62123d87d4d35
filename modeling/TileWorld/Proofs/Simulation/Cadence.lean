import Mathlib.Data.Nat.Init
import TileWorld.Proofs.Channel.Naming
import TileWorld.Proofs.Simulation.Wandering

/-! An agent is sent only after it has come to the end of the path before and has rested since. -/

namespace TileWorld

structure World.HasAgent (w : World) (id : String) (o : Object) (wander : Wander) : Prop where
  find : w.find? id = some o
  wander : o.wander = some wander

theorem World.AtRest.of_hasAgent {world : World} {id : String} {o : Object} {w : Wander}
    {since now : Float} (h : world.AtRest id since now) (ho : world.HasAgent id o w) :
    o.hasActivePath = false ∧ w.lastPath = since := by
  obtain ⟨p, v, hp, hv, hstill, hsince, -⟩ := h
  rw [ho.find, Option.some_inj] at hp
  subst hp
  rw [ho.wander, Option.some_inj] at hv
  subst hv
  exact ⟨hstill, hsince⟩

namespace Simulation

variable {s : Simulation} {id : String} {o : Object} {w : Wander} {now : Float} {dt : Float32}
  {calls : List Call}

/-! ## What a tick does -/

/-- A tick tells of a path for the object. -/
def Sends (id : String) (s : Simulation) (now : Float) (dt : Float32) : Prop :=
  routesOf id (s.tick now dt).1 ≠ []

/-- The motion of a tick brings an object that was on its way to the last waypoint. -/
def Arrives (id : String) (s : Simulation) (now : Float) (dt : Float32) : Prop :=
  ∃ o x, s.world.find? id = some o ∧ (s.moved now dt).find? id = some x ∧
    o.hasActivePath = true ∧ o.path.getLast? = some x.position ∧ x.hasActivePath = false

/-- A tick finds no path for an agent at rest. -/
def Fails (id : String) (s : Simulation) (now : Float) (dt : Float32) : Prop :=
  (∃ since, (s.moved now dt).AtRest id since now) ∧ routesOf id (s.tick now dt).1 = []

/-- A rest begins with the tick. -/
def Stamps (id : String) (s : Simulation) (now : Float) (dt : Float32) : Prop :=
  Arrives id s now dt ∨ Fails id s now dt

/-! ## Runs -/

/-- All calls but a change of the channel. -/
def Call.KeepsChannel : Call → Prop
  | .handle (.changeChannel _) => False
  | _ => True

def before (s : Simulation) (calls : List Call) (n : Nat) : Simulation := s.run (calls.take n)

/-- The call at index `n` is a tick of which the property holds. -/
def During (s : Simulation) (calls : List Call) (n : Nat)
    (P : Simulation → Float → Float32 → Prop) : Prop :=
  ∃ now dt, calls[n]? = some (.tick now dt) ∧ P (s.before calls n) now dt

/-- Among the first `n` calls the last in which a rest of the agent began is a tick at this time. -/
def LastStamp (s : Simulation) (calls : List Call) (id : String) (n : Nat) (since : Float) : Prop :=
  ∃ m dt, m < n ∧ calls[m]? = some (.tick since dt) ∧ Stamps id (s.before calls m) since dt ∧
    ∀ l, m < l → l < n → ¬ During s calls l (Stamps id)

/-- How often agents are sent on their way in a run. -/
structure Cadence (s : Simulation) (calls : List Call) : Prop where
  /-- Nobody is sent but an agent that has no waypoints left and whose rest is over. -/
  rested : ∀ n now dt id path, calls[n]? = some (.tick now dt) →
    .route id path ∈ ((s.before calls n).tick now dt).1 →
      ∃ since, ((s.before calls n).moved now dt).AtRest id since now
  once : ∀ n now dt id, calls[n]? = some (.tick now dt) →
    (routesOf id ((s.before calls n).tick now dt).1).length ≤ 1
  /-- An agent on its way keeps its path until it arrives. -/
  kept : ∀ a n id o w, a ≤ n → (s.before calls a).world.HasAgent id o w →
    o.hasActivePath = true → (∀ k, a ≤ k → k < n → ¬ During s calls k (Arrives id)) →
      ∃ x v, (s.before calls n).world.HasAgent id x v ∧ x.hasActivePath = true ∧ x.path = o.path
  /-- Between two paths the agent arrives. -/
  arrives : ∀ i j id, i < j → During s calls i (Sends id) → During s calls j (Sends id) →
    ∃ k, i < k ∧ k ≤ j ∧ During s calls k (Arrives id)
  /-- The second path comes after a rest since the last tick that began one. -/
  timed : ∀ i j id, i < j → During s calls i (Sends id) → During s calls j (Sends id) →
    ∃ since, LastStamp s calls id (j + 1) since ∧
      During s calls j fun t now dt => (t.moved now dt).AtRest id since now

/-! ## Requests -/

/-- A request other than a change of the channel changes nothing but the player, and not whether it
wanders. -/
theorem exists_find?_handle (s : Simulation) {m : ClientMessage}
    (hm : (Call.handle m).KeepsChannel) :
    ∃ change : Object → Object, (∀ o, (change o).wander = o.wander) ∧
      ∀ id, (s.handle m).2.world.find? id =
        (s.world.find? id).map fun o => if s.player = some id then change o else o := by
  rcases s.handle_cases m with hsame | ⟨player, change, keepsId, hplayer, hkeeps, hmodified⟩ |
    ⟨player, channel, rfl, -⟩
  · exact ⟨fun o => o, fun _ => rfl, fun id => by simp [hsame]⟩
  · refine ⟨change, fun o => (hkeeps o).2.2, fun id => ?_⟩
    rw [hmodified, World.find?_modify_eq_map, hplayer]
    simp only [Option.some_inj, eq_comm]
  · cases hm

theorem hasAgent_handle (h : s.world.HasAgent id o w) (hplayer : s.player ≠ some id)
    {m : ClientMessage} (hm : (Call.handle m).KeepsChannel) :
    (s.handle m).2.world.HasAgent id o w := by
  obtain ⟨change, -, hfind⟩ := s.exists_find?_handle hm
  refine ⟨?_, h.wander⟩
  rw [hfind, h.find, Option.map_some, if_neg hplayer]

/-! ## Ticks -/

/-- The motion of a tick brings an agent to the end of its path, where its rest begins, or leaves
its path, its rest and whether it has waypoints as they are. -/
theorem hasAgent_moved (h : s.world.HasAgent id o w) (now : Float) (dt : Float32) :
    ∃ x v, (s.moved now dt).HasAgent id x v ∧
      (Arrives id s now dt → v.lastPath = now) ∧
      (¬ Arrives id s now dt → x.hasActivePath = o.hasActivePath ∧ x.path = o.path ∧ v = w) := by
  have hfind : (s.moved now dt).find? id = some (o.step dt now).1 := by
    rw [moved, World.find?_integrate, h.find, Option.map_some]
  rcases o.step_cases dt now with ⟨hactive, hlast, hstill, hwander⟩ | ⟨hactive, hpath, hwander⟩
  · have harrives : Arrives id s now dt := ⟨o, _, h.find, hfind, hactive, hlast, hstill⟩
    rw [h.wander, Option.map_some] at hwander
    exact ⟨_, _, ⟨hfind, hwander⟩, fun _ => rfl, fun hnot => absurd harrives hnot⟩
  · refine ⟨_, w, ⟨hfind, hwander.trans h.wander⟩, ?_, fun _ => ⟨hactive, hpath, rfl⟩⟩
    rintro ⟨p, x, hp, hx, hbefore, -, hafter⟩
    rw [h.find, Option.some_inj] at hp
    rw [hfind, Option.some_inj] at hx
    subst hp hx
    rw [hactive, hbefore] at hafter
    cases hafter

theorem exists_hasAgent_of_moved (h : (s.moved now dt).HasAgent id o w) :
    ∃ p v, s.world.HasAgent id p v := by
  obtain ⟨p, hp, hstep⟩ := Option.map_eq_some_iff.mp ((World.find?_integrate ..).symm.trans h.find)
  have hwander : p.wander ≠ none := by
    intro hnone
    have hw := h.wander
    rw [← hstep] at hw
    rcases p.step_cases dt now with ⟨-, -, -, hwander⟩ | ⟨-, -, hwander⟩ <;>
      simp [hwander, hnone] at hw
  obtain ⟨v, hv⟩ := Option.ne_none_iff_exists'.mp hwander
  exact ⟨p, v, hp, hv⟩

theorem exists_hasAgent_of_atRest {since : Float} (h : (s.moved now dt).AtRest id since now) :
    ∃ p v, s.world.HasAgent id p v := by
  obtain ⟨x, v, hx, hv, -⟩ := h
  exact exists_hasAgent_of_moved ⟨hx, hv⟩

theorem Routed.exists_hasAgent_of_tick (hs : s.Routed)
    (h : (s.tick now dt).2.world.HasAgent id o w) : ∃ p v, s.world.HasAgent id p v := by
  by_cases hrest : ∃ since, (s.moved now dt).AtRest id since now
  · exact exists_hasAgent_of_atRest hrest.choose_spec
  · have hfind := (hs.tick_of_not_atRest fun since h => hrest ⟨since, h⟩).1
    exact exists_hasAgent_of_moved ⟨hfind.symm.trans h.find, h.wander⟩

/-- An agent that is sent has waypoints, one that does not arrive keeps those it has, and its rest
begins anew exactly in the ticks that stamp it. -/
theorem Routed.hasAgent_tick (hs : s.Routed) (h : s.world.HasAgent id o w) (now : Float)
    (dt : Float32) :
    ∃ x v, (s.tick now dt).2.world.HasAgent id x v ∧
      (Sends id s now dt → x.hasActivePath = true) ∧
      (o.hasActivePath = true → ¬ Arrives id s now dt →
        x.hasActivePath = true ∧ x.path = o.path) ∧
      (Stamps id s now dt → v.lastPath = now) ∧
      (¬ Stamps id s now dt → v.lastPath = w.lastPath) := by
  obtain ⟨y, u, hy, harrives, hnotArrives⟩ := hasAgent_moved h now dt
  by_cases hrest : ∃ since, (s.moved now dt).AtRest id since now
  · have hdone : o.hasActivePath = true → ¬ ¬ Arrives id s now dt := fun hactive hnot => by
      have hstill := (hrest.choose_spec.of_hasAgent hy).1
      rw [(hnotArrives hnot).1, hactive] at hstill
      cases hstill
    obtain ⟨x, hx, houtcome⟩ := hs.outcome_tick hrest.choose_spec hy.find
    generalize hroutes : routesOf id (s.tick now dt).1 = routes at houtcome
    cases houtcome with
    | sent path hpath =>
        have hactive : (y.setPath path).hasActivePath = true :=
          decide_eq_true (List.length_pos_iff.mpr hpath)
        refine ⟨_, u, ⟨hx, hy.wander⟩, fun _ => hactive,
          fun hbusy hnot => absurd hnot (hdone hbusy), ?_, ?_⟩
        · rintro (harrived | ⟨-, hnone⟩)
          · exact harrives harrived
          · rw [hroutes] at hnone
            cases hnone
        · intro hnot
          rw [(hnotArrives fun harrived => hnot (.inl harrived)).2.2]
    | failed =>
        have hfails : Fails id s now dt := ⟨hrest, hroutes⟩
        refine ⟨_, { u with lastPath := now }, ⟨hx, by rw [hy.wander, Option.map_some]⟩,
          fun hsends => absurd hroutes hsends, fun hbusy hnot => absurd hnot (hdone hbusy),
          fun _ => rfl, fun hnot => absurd (.inr hfails) hnot⟩
  · obtain ⟨hfind, hroutes⟩ := hs.tick_of_not_atRest fun since h => hrest ⟨since, h⟩
    refine ⟨y, u, ⟨hfind.trans hy.find, hy.wander⟩, fun hsends => absurd hroutes hsends, ?_, ?_, ?_⟩
    · intro hactive hnot
      obtain ⟨hkept, hpath, -⟩ := hnotArrives hnot
      exact ⟨hkept.trans hactive, hpath⟩
    · rintro (harrived | ⟨hfails, -⟩)
      · exact harrives harrived
      · exact absurd hfails hrest
    · intro hnot
      rw [(hnotArrives fun harrived => hnot (.inl harrived)).2.2]

/-! ## The player does not wander -/

/-- Paths lead along walks, and no agent is the player. -/
structure Patrolled (s : Simulation) : Prop where
  routed : s.Routed
  apart : ∀ id o w, s.world.HasAgent id o w → s.player ≠ some id

theorem patrolled_bootstrap (s : Simulation) (channel token : String) :
    (s.bootstrap channel token).2.Patrolled := by
  refine ⟨routed_bootstrap s channel token, ?_⟩
  rintro id o w ⟨ho, hw⟩ hplayer
  rw [player_bootstrap, Option.some_inj] at hplayer
  subst hplayer
  obtain ⟨hmem, hid⟩ := mem_of_find?_repopulate ho
  rw [Channel.eq_player_of_mem_populate hmem hid] at hw
  cases hw

theorem Patrolled.perform (hs : s.Patrolled) {call : Call} (hcall : call.KeepsChannel) :
    (s.perform call).2.Patrolled := by
  cases call with
  | tick now dt =>
      refine ⟨hs.routed.tick now dt, fun id o w h => ?_⟩
      obtain ⟨p, v, hbefore⟩ := hs.routed.exists_hasAgent_of_tick h
      rw [player_perform]
      exact hs.apart id p v hbefore
  | handle m =>
      refine ⟨hs.routed.handle m, fun id o w h => ?_⟩
      obtain ⟨change, hwander, hfind⟩ := s.exists_find?_handle hcall
      obtain ⟨p, hp, rfl⟩ := Option.map_eq_some_iff.mp ((hfind id).symm.trans h.find)
      have hw : p.wander = some w := by
        have hw := h.wander
        split at hw
        · rwa [hwander] at hw
        · exact hw
      rw [player_perform]
      exact hs.apart id p w ⟨hp, hw⟩

theorem Patrolled.before (hs : s.Patrolled) (hcalls : ∀ call ∈ calls, call.KeepsChannel) (n : Nat) :
    (s.before calls n).Patrolled :=
  List.foldlRecOn _ _ hs fun _ ht _ hcall => ht.perform (hcalls _ (List.mem_of_mem_take hcall))

/-! ## An agent in a run -/

theorem during_iff {n : Nat} (h : calls[n]? = some (.tick now dt))
    {P : Simulation → Float → Float32 → Prop} :
    During s calls n P ↔ P (s.before calls n) now dt := by
  constructor
  · rintro ⟨now', dt', htick, hP⟩
    rw [h, Option.some_inj, Call.tick.injEq] at htick
    obtain ⟨rfl, rfl⟩ := htick
    exact hP
  · intro hP
    exact ⟨now, dt, h, hP⟩

theorem During.mono {n : Nat} {P Q : Simulation → Float → Float32 → Prop}
    (h : During s calls n P) (hPQ : ∀ t now dt, P t now dt → Q t now dt) : During s calls n Q := by
  obtain ⟨now, dt, htick, hP⟩ := h
  exact ⟨now, dt, htick, hPQ _ now dt hP⟩

theorem before_succ {n : Nat} {call : Call} (h : calls[n]? = some call) :
    s.before calls (n + 1) = ((s.before calls n).perform call).2 := by
  rw [before, List.take_add_one, h, Option.toList_some, run_append]
  rfl

theorem before_succ_of_none {n : Nat} (h : calls[n]? = none) :
    s.before calls (n + 1) = s.before calls n := by
  rw [before, List.take_add_one, h, Option.toList_none, List.append_nil]
  rfl

/-- What one call of a run makes of an agent. -/
theorem Patrolled.hasAgent_succ (hs : s.Patrolled) (hcalls : ∀ call ∈ calls, call.KeepsChannel)
    {n : Nat} (h : (s.before calls n).world.HasAgent id o w) :
    ∃ x v, (s.before calls (n + 1)).world.HasAgent id x v ∧
      (During s calls n (Sends id) → x.hasActivePath = true) ∧
      (o.hasActivePath = true → ¬ During s calls n (Arrives id) →
        x.hasActivePath = true ∧ x.path = o.path) ∧
      (∀ now dt, calls[n]? = some (.tick now dt) → Stamps id (s.before calls n) now dt →
        v.lastPath = now) ∧
      (¬ During s calls n (Stamps id) → v.lastPath = w.lastPath) := by
  have ht := hs.before hcalls n
  by_cases htick : ∃ now dt, calls[n]? = some (.tick now dt)
  · obtain ⟨now, dt, htick⟩ := htick
    obtain ⟨x, v, hx, hsends, hkeeps, hstamps, hrests⟩ := ht.routed.hasAgent_tick h now dt
    rw [before_succ htick]
    simp only [during_iff htick]
    refine ⟨x, v, hx, hsends, hkeeps, ?_, hrests⟩
    intro now' dt' htick' hstamped
    rw [htick, Option.some_inj, Call.tick.injEq] at htick'
    obtain ⟨rfl, rfl⟩ := htick'
    exact hstamps hstamped
  · have hnext : (s.before calls (n + 1)).world.HasAgent id o w := by
      cases hcall : calls[n]? with
      | none => rwa [before_succ_of_none hcall]
      | some call =>
          rw [before_succ hcall]
          cases call with
          | tick now dt => exact absurd ⟨now, dt, hcall⟩ htick
          | handle m =>
              exact hasAgent_handle h (ht.apart id o w h) (hcalls _ (List.mem_of_getElem? hcall))
    refine ⟨o, w, hnext, ?_, fun hactive _ => ⟨hactive, rfl⟩, ?_, fun _ => rfl⟩
    · rintro ⟨now, dt, hcall, -⟩
      exact absurd ⟨now, dt, hcall⟩ htick
    · intro now dt hcall
      exact absurd ⟨now, dt, hcall⟩ htick

theorem Patrolled.exists_hasAgent_of_le (hs : s.Patrolled)
    (hcalls : ∀ call ∈ calls, call.KeepsChannel) {a n : Nat} (hle : a ≤ n)
    (h : (s.before calls a).world.HasAgent id o w) :
    ∃ x v, (s.before calls n).world.HasAgent id x v := by
  induction n, hle using Nat.le_induction with
  | base => exact ⟨o, w, h⟩
  | succ n hle ih =>
      obtain ⟨x, v, hx⟩ := ih
      obtain ⟨y, u, hy, -⟩ := hs.hasAgent_succ hcalls hx
      exact ⟨y, u, hy⟩

/-- As long as it does not arrive, an agent on its way stays on its way. -/
theorem Patrolled.path_of_not_arrives (hs : s.Patrolled)
    (hcalls : ∀ call ∈ calls, call.KeepsChannel) {a n : Nat} (hle : a ≤ n)
    (h : (s.before calls a).world.HasAgent id o w) (hactive : o.hasActivePath = true)
    (hnot : ∀ k, a ≤ k → k < n → ¬ During s calls k (Arrives id)) :
    ∃ x v, (s.before calls n).world.HasAgent id x v ∧ x.hasActivePath = true ∧
      x.path = o.path := by
  induction n, hle using Nat.le_induction with
  | base => exact ⟨o, w, h, hactive, rfl⟩
  | succ n hle ih =>
      obtain ⟨x, v, hx, hxactive, hxpath⟩ := ih fun k hak hkn => hnot k hak (Nat.lt_succ_of_lt hkn)
      obtain ⟨y, u, hy, -, hkeeps, -, -⟩ := hs.hasAgent_succ hcalls hx
      obtain ⟨hyactive, hypath⟩ := hkeeps hxactive (hnot n hle (Nat.lt_succ_self n))
      exact ⟨y, u, hy, hyactive, hypath.trans hxpath⟩

theorem lastStamp_succ_of_stamps {n : Nat} (h : calls[n]? = some (.tick now dt))
    (hstamps : Stamps id (s.before calls n) now dt) : LastStamp s calls id (n + 1) now :=
  ⟨n, dt, Nat.lt_succ_self n, h, hstamps, fun _ hl hln => by omega⟩

theorem LastStamp.succ {n : Nat} {since : Float} (h : LastStamp s calls id n since)
    (hnot : ¬ During s calls n (Stamps id)) : LastStamp s calls id (n + 1) since := by
  obtain ⟨m, dt, hmn, htick, hstamps, hlast⟩ := h
  refine ⟨m, dt, Nat.lt_succ_of_lt hmn, htick, hstamps, fun l hml hln => ?_⟩
  by_cases hl : l = n
  · rwa [hl]
  · exact hlast l hml (by omega)

/-- Once a rest of an agent began, its time is that of the last tick that began one. -/
theorem Patrolled.exists_lastStamp (hs : s.Patrolled) (hcalls : ∀ call ∈ calls, call.KeepsChannel)
    {k n : Nat} (hlt : k < n) (h : (s.before calls k).world.HasAgent id o w)
    (hstamped : During s calls k (Stamps id)) :
    ∃ x v, (s.before calls n).world.HasAgent id x v ∧ LastStamp s calls id n v.lastPath := by
  have hstamp : ∀ n x v, (s.before calls n).world.HasAgent id x v →
      During s calls n (Stamps id) →
      ∃ x v, (s.before calls (n + 1)).world.HasAgent id x v ∧
        LastStamp s calls id (n + 1) v.lastPath := by
    rintro n x v hx ⟨now, dt, htick, hstamps⟩
    obtain ⟨y, u, hy, -, -, hstamped, -⟩ := hs.hasAgent_succ hcalls hx
    refine ⟨y, u, hy, ?_⟩
    rw [hstamped now dt htick hstamps]
    exact lastStamp_succ_of_stamps htick hstamps
  induction n, hlt using Nat.le_induction with
  | base => exact hstamp k o w h hstamped
  | succ n hle ih =>
      obtain ⟨x, v, hx, hlast⟩ := ih
      by_cases hn : During s calls n (Stamps id)
      · exact hstamp n x v hx hn
      · obtain ⟨y, u, hy, -, -, -, hrests⟩ := hs.hasAgent_succ hcalls hx
        refine ⟨y, u, hy, ?_⟩
        rw [hrests hn]
        exact hlast.succ hn

/-! ## Two paths of one agent -/

theorem Patrolled.exists_atRest_of_sends (hs : s.Patrolled) (h : Sends id s now dt) :
    ∃ since, (s.moved now dt).AtRest id since now := by
  by_contra hnot
  exact h (hs.routed.tick_of_not_atRest fun since hrest => hnot ⟨since, hrest⟩).2

theorem Patrolled.length_routesOf_le (hs : s.Patrolled) (id : String) (now : Float)
    (dt : Float32) : (routesOf id (s.tick now dt).1).length ≤ 1 := by
  by_cases hrest : ∃ since, (s.moved now dt).AtRest id since now
  · obtain ⟨x, v, hx, -⟩ := hrest.choose_spec
    obtain ⟨y, -, houtcome⟩ := hs.routed.outcome_tick hrest.choose_spec hx
    generalize routesOf id (s.tick now dt).1 = routes at houtcome
    cases houtcome with
    | sent path hpath => exact Nat.le_refl 1
    | failed => exact Nat.zero_le 1
  · rw [(hs.routed.tick_of_not_atRest fun since h => hrest ⟨since, h⟩).2]
    exact Nat.zero_le 1

theorem Patrolled.exists_hasAgent_of_sends (hs : s.Patrolled)
    (hcalls : ∀ call ∈ calls, call.KeepsChannel) {n : Nat} (h : During s calls n (Sends id)) :
    ∃ o w, (s.before calls n).world.HasAgent id o w := by
  obtain ⟨now, dt, -, hsends⟩ := h
  obtain ⟨since, hrest⟩ := (hs.before hcalls n).exists_atRest_of_sends hsends
  exact exists_hasAgent_of_atRest hrest

/-- An agent that was sent arrives before it is sent again. -/
theorem Patrolled.exists_arrives (hs : s.Patrolled) (hcalls : ∀ call ∈ calls, call.KeepsChannel)
    {i j : Nat} (hij : i < j) (hi : During s calls i (Sends id))
    (hj : During s calls j (Sends id)) : ∃ k, i < k ∧ k ≤ j ∧ During s calls k (Arrives id) := by
  obtain ⟨o, w, ho⟩ := hs.exists_hasAgent_of_sends hcalls hi
  obtain ⟨x, v, hx, hsent, -⟩ := hs.hasAgent_succ hcalls ho
  by_contra hnone
  have hnot : ∀ k, i + 1 ≤ k → k ≤ j → ¬ During s calls k (Arrives id) := fun k hik hkj harrives =>
    hnone ⟨k, hik, hkj, harrives⟩
  -- then it is still on its way when the second path is found, but it was not at rest in this case
  obtain ⟨y, u, hy, hactive, -⟩ := hs.path_of_not_arrives hcalls hij hx (hsent hi)
    fun k hik hkj => hnot k hik (Nat.le_of_lt hkj)
  obtain ⟨now', dt', htick, hsends'⟩ := hj
  obtain ⟨since', hrest'⟩ := (hs.before hcalls j).exists_atRest_of_sends hsends'
  obtain ⟨z, t, hz, -, hkept⟩ := hasAgent_moved hy now' dt'
  have hstill := (hrest'.of_hasAgent hz).1
  have hmissed : ¬ Arrives id (s.before calls j) now' dt' := fun harrives =>
    hnot j hij (Nat.le_refl j) ⟨now', dt', htick, harrives⟩
  rw [(hkept hmissed).1, hactive] at hstill
  cases hstill

/-- An agent that is sent once more has rested since the last tick that began a rest. -/
theorem Patrolled.exists_lastStamp_of_sends (hs : s.Patrolled)
    (hcalls : ∀ call ∈ calls, call.KeepsChannel) {i j : Nat} (hij : i < j)
    (hi : During s calls i (Sends id)) (hj : During s calls j (Sends id)) :
    ∃ since, LastStamp s calls id (j + 1) since ∧
      During s calls j fun t now dt => (t.moved now dt).AtRest id since now := by
  obtain ⟨k, hik, hkj, harrives⟩ := hs.exists_arrives hcalls hij hi hj
  obtain ⟨o, w, ho⟩ := hs.exists_hasAgent_of_sends hcalls hi
  obtain ⟨now, dt, htick, hsends⟩ := hj
  obtain ⟨since, hrest⟩ := (hs.before hcalls j).exists_atRest_of_sends hsends
  refine ⟨since, ?_, now, dt, htick, hrest⟩
  by_cases hlast : Arrives id (s.before calls j) now dt
  · obtain ⟨x, v, hx⟩ := hs.exists_hasAgent_of_le hcalls (Nat.le_of_lt hij) ho
    obtain ⟨y, u, hy, hnow, -⟩ := hasAgent_moved hx now dt
    rw [← (hrest.of_hasAgent hy).2, hnow hlast]
    exact lastStamp_succ_of_stamps htick (.inl hlast)
  · have hlt : k < j := by
      refine Nat.lt_of_le_of_ne hkj fun heq => hlast ?_
      rwa [heq, during_iff htick] at harrives
    obtain ⟨p, q, hp⟩ := hs.exists_hasAgent_of_le hcalls (Nat.le_of_lt hik) ho
    obtain ⟨x, v, hx, hstamp⟩ := hs.exists_lastStamp hcalls hlt hp (harrives.mono fun _ _ _ => .inl)
    obtain ⟨y, u, hy, -, hkept⟩ := hasAgent_moved hx now dt
    rw [← (hrest.of_hasAgent hy).2, (hkept hlast).2.2]
    refine hstamp.succ ?_
    rw [during_iff htick]
    rintro (harrived | ⟨-, hnone⟩)
    · exact hlast harrived
    · exact hsends hnone

/-- In every run after a bootstrap that stays in the channel agents are sent on their way only when
they have arrived and rested since. -/
theorem cadence_bootstrap (s : Simulation) (channel token : String) {calls : List Call}
    (hcalls : ∀ call ∈ calls, call.KeepsChannel) :
    Cadence (s.bootstrap channel token).2 calls := by
  have hs := patrolled_bootstrap s channel token
  refine ⟨?_, ?_, ?_, ?_, ?_⟩
  · intro n now dt id path _ hmem
    exact (hs.before hcalls n).exists_atRest_of_sends (List.ne_nil_of_mem (mem_routesOf.mpr hmem))
  · intro n now dt id _
    exact (hs.before hcalls n).length_routesOf_le id now dt
  · intro a n id o w hle h hactive hnot
    exact hs.path_of_not_arrives hcalls hle h hactive hnot
  · intro i j id hij hi hj
    exact hs.exists_arrives hcalls hij hi hj
  · intro i j id hij hi hj
    exact hs.exists_lastStamp_of_sends hcalls hij hi hj

/-- Agents keep to their cadence while the player talks and walks between two ticks. -/
theorem cadence_conversation :
    let calls : List Call := [.tick 5 0.05, .handle (.chat "lobby" "hello"),
      .handle (.move ⟨640, 640⟩), .tick 9 0.05]
    (∀ call ∈ calls, call.KeepsChannel) ∧
      Cadence ((new .standard ⟨fun _ => 0, 0⟩).bootstrap "nowhere" "one").2 calls := by
  intro calls
  have hcalls : ∀ call ∈ calls, call.KeepsChannel := by
    simp [calls, Call.KeepsChannel]
  exact ⟨hcalls, cadence_bootstrap _ "nowhere" "one" hcalls⟩

end Simulation

end TileWorld
