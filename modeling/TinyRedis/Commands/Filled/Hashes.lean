import TinyRedis.Commands.Filled.Basic

/-!
# Hashes with a field

`HDEL` leaves an empty hash if it deletes all fields. The commands that write to a hash add a field
to a new one, but for `HINCRBYFLOAT` if the increment is no finite number.
-/

namespace TinyRedis.Commands

open Lib

variable {env : Env} {argv : Args} {lower : Bytes}

/-! ## Deleting fields -/

/-- A field that is not named is left. -/
theorem leads_hdel :
    Leads (fun w => Full w ∧ ∀ d, typedAt env hashKind (argv.getD 1 []) w = some d →
      spares argv d = true) (hdel env argv) fun _ => Full :=
  leads_arg fun _ => leads_withTyped leads_eraseArgs_null fun _ hd _ =>
    leads_eraseArgs (k := hashKind) (fun _ h => h) (fun d a n => if a ∈ d then n + 1 else n) hd

/-! ## Adding fields -/

/-- A new hash has a field after the first step. -/
theorem leads_hsetWith {reply : ℕ → M Unit} (hreply : ∀ n, Leads Full (reply n) fun _ => Full)
    (hargc : 4 ≤ argv.length) : Leads Full (hsetWith env argv lower reply) fun _ => Full := by
  unfold hsetWith
  refine Triple.ite (fun _ => leads_error _) fun _ => ?_
  refine leads_arg fun _ => leads_create (leads_error _) ?_
  refine leads_forArgs (fun i d => i = 2 ∨ 0 < d.size) Nat.two_pos (fun _ _ => .inl rfl)
    (fun i n _ _ => ?_) (fun j d hj hd => ?_) fun n => leads_of_full (fun _ hd => hd) (hreply n)
  · refine leads_arg fun _ => leads_deref fun d _ => leads_arg fun _ => ?_
    exact leads_store (.inr (Dict.size_insert_pos d _ _)) (Triple.intro fun _ hw => hw)
  · rcases hd with rfl | hd
    · omega
    · exact hd

/-- `HSETNX` sets the field, or finds it. -/
theorem leads_hsetnx : Leads Full (hsetnx env argv) fun _ => Full := by
  unfold hsetnx
  refine leads_arg fun _ => leads_create (leads_error _) ?_
  refine leads_deref fun d _ => leads_arg fun _ => Triple.ite (fun hmem => ?_) fun _ => ?_
  · exact leads_same _ (Dict.size_pos_of_mem hmem)
  · exact leads_arg fun _ => leads_finish _ (Dict.size_insert_pos d _ _)

/-- `HINCRBY` sets the field, or finds it. -/
theorem leads_hincrby : Leads Full (hincrby env argv) fun _ => Full := by
  refine leads_arg fun _ => ?_
  cases parseIntStrict (argv.getD 3 []) with
  | none => exact leads_error _
  | some delta =>
    refine leads_arg fun _ => leads_create (leads_error _) ?_
    refine leads_deref fun d _ => leads_arg fun _ => ?_
    have hstore : ∀ val n, Leads (FullAt hashKind (argv.getD 1 []) (· = d))
        (store hashKind (some (argv.getD 1 [])) (d.insert (argv.getD 2 []) val) >>= fun _ =>
          replyInt n) fun _ => Full := fun val n =>
      leads_finish _ (Dict.size_insert_pos d _ _)
    cases hl : d.lookup (argv.getD 2 []) with
    | none => exact hstore _ _
    | some s =>
      -- A hash that is there already has the field, so an error leaves it with one.
      have hpos : 0 < d.size := Dict.size_pos_of_mem (AList.lookup_isSome.1 (by rw [hl]; rfl))
      dsimp only
      cases parseIntStrict s with
      | none => exact leads_refuse _ hpos
      | some cur =>
        exact Triple.ite (fun _ => leads_refuse _ hpos) fun _ => hstore _ _

end TinyRedis.Commands
