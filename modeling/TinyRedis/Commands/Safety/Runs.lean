import TinyRedis.Commands.Safety.Dispatch

/-!
# Invariants over whole runs

An invariant of the database that the handlers keep, and that expiry keeps, holds in every state of
every run of the server, for any number of clients and any interleaving of their commands.
-/

namespace TinyRedis.Commands.Server

open Lib

/-- The handlers that an event runs. -/
def ran (env : Env) (s : Server) : Event → List Ran
  | .call i argv => Commands.ran env 2 argv (s.clients i).tx (s.world i)
  | .expire => []

/-- All handlers that a run runs pass the test `K`. -/
def runMeets (env : Env) (K : Ran → Bool) : List Event → Server → Bool
  | [], _ => true
  | e :: events, s =>
    (s.ran env e).all K &&
      match s.step env e with
      | .ok s => runMeets env K events s
      | .error _ => true

variable {env : Env} {I : Database → Prop} {K : Ran → Bool} {s s' : Server}

/-- Every run meets the trivial condition. -/
theorem runMeets_true (env : Env) (events : List Event) (s : Server) :
    runMeets env (fun _ => true) events s = true := by
  induction events generalizing s with
  | nil => rfl
  | cons e events ih =>
    rw [runMeets, List.all_eq_true.2 fun _ _ => rfl, Bool.true_and]
    cases s.step env e with
    | error f => rfl
    | ok s' => exact ih s'

/-- A run that passes the test, and what comes after it. -/
theorem runMeets_append {events rest : List Event}
    (h : s.runMeets env K (events ++ rest) = true) (hrun : run env events s = .ok s') :
    s.runMeets env K events = true ∧ s'.runMeets env K rest = true := by
  induction events generalizing s with
  | nil =>
    cases hrun
    exact ⟨rfl, h⟩
  | cons e events ih =>
    obtain ⟨s₁, hstep, hrest⟩ := bind_eq_ok hrun
    rw [List.cons_append, runMeets, hstep, Bool.and_eq_true] at h
    obtain ⟨hevents, hafter⟩ := ih h.2 hrest
    rw [runMeets, hstep, h.1]
    exact ⟨hevents, hafter⟩

/-- What the handlers and expiry have to keep. -/
structure Kept (env : Env) (K : Ran → Bool) (I : Database → Prop) : Prop where
  handler : ∀ x p, minArgs x.cmd ≤ x.argv.length → K x = true → I x.world.db →
    x.outcome env = .ok p → I p.2.db
  expire : ∀ i rng keys now n db, I db → keys.Perm (db.table i).toList →
    I (Database.expireTable i rng keys now (n, db)).2

/-- The active expiry keeps the invariant. -/
theorem activeExpireCycle_keeps (h : Kept env K I) (hs : I s.db) :
    I (s.activeExpireCycle env).db := by
  -- The tables come one after another.
  have hfold : ∀ (l : List DbIndex) (r : ℕ × Server), I r.2.db →
      I (l.foldl (expireOne env) r).2.db := by
    intro l
    induction l with
    | nil => exact fun r hr => hr
    | cons i l ih => exact fun r hr => ih _ (h.expire i _ _ _ r.1 r.2.db hr (env.order_perm _ _))
  have hall := hfold (List.finRange kNumDatabases) (0, s) hs
  unfold activeExpireCycle
  generalize (List.finRange kNumDatabases).foldl (expireOne env) (0, s) = r at hall ⊢
  exact hall

/-- Every event keeps the invariant if what it runs meets the condition. -/
theorem step_keeps (h : Kept env K I) (e : Event) (hs : I s.db) (hK : ∀ x ∈ s.ran env e, K x = true)
    (hstep : s.step env e = .ok s') : I s'.db := by
  cases e with
  | call i argv =>
    obtain ⟨p, hp, hs'⟩ := bind_eq_ok hstep
    cases hs'
    exact dispatch_keeps (K := fun x => K x = true) h.handler 2 argv (s.clients i).tx (s.world i) p
      hs hK hp
  | expire =>
    cases hstep
    exact activeExpireCycle_keeps h hs

/-- Every run keeps the invariant if what it runs meets the condition. -/
theorem run_keeps (h : Kept env K I) (events : List Event) (hs : I s.db)
    (hK : s.runMeets env K events = true) (hrun : run env events s = .ok s') : I s'.db := by
  induction events generalizing s with
  | nil =>
    cases hrun
    exact hs
  | cons e events ih =>
    obtain ⟨s₁, hstep, hrest⟩ := bind_eq_ok hrun
    rw [runMeets, hstep, Bool.and_eq_true] at hK
    exact ih (step_keeps h e hs (List.all_eq_true.1 hK.1) hstep) hK.2 hrest

end TinyRedis.Commands.Server
