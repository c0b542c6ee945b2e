import TinyRedis.Resp.Chunking
import TinyRedis.Resp.Reply

/-!
# The texts of protocol errors

The parser repeats the byte that it found in place of a `$`. When that is CR or LF, the error is
more than one line; all other errors of the parser are lines.
-/

namespace TinyRedis.Resp

open Lib Lib.Incremental

variable {buf : Bytes} {k : ℕ}

/-- A stray line break ends up in the error text. -/
theorem StraysIn.error {b : Bytes} (h : StraysIn k b) (out : List Bytes) :
    ∃ e, decodeBulks k b out = .error e ∧ ¬OneLine e := by
  induction h generalizing out with
  | here hb =>
    unfold decodeBulks
    rcases hb with hb | hb
    · rw [decodeBulk_of_ne hb (by decide)]
      exact ⟨_, rfl, by decide⟩
    · rw [decodeBulk_of_ne hb (by decide)]
      exact ⟨_, rfl, by decide⟩
  | @later _ _ s _ hs _ ih =>
    unfold decodeBulks
    rw [hs]
    exact ih (out ++ [s])

/-- A request that is no request has an error in one line, unless it strays. -/
theorem oneLine_decodeRequest {e : Bytes} (h : decodeRequest buf = .error e)
    (hbuf : ¬Strays buf) : OneLine e := by
  rcases decodeRequest_eq_error h with hmsg | ⟨c, rfl, hc⟩
  · have hline : ∀ msg ∈ protocolErrors, OneLine msg := by decide
    exact hline e hmsg
  · have hne := fun h => hbuf (hc h)
    have hline : OneLine [c] :=
      ⟨fun hm => hne (.inl (List.mem_singleton.1 hm).symm),
        fun hm => hne (.inr (List.mem_singleton.1 hm).symm)⟩
    exact line_append_iff.2 ⟨line_append_iff.2 ⟨by decide, hline⟩, by decide⟩

/-- Where a stream strays, the parser has an error that is more than one line. -/
theorem Strays.error (h : Strays buf) :
    ∃ msg, (drainAll decodeRequest buf).2.2 = some msg ∧ ¬OneLine msg := by
  induction h with
  | @here buf _ _ hhead hcount hrest =>
    obtain ⟨msg, hmsg, hline⟩ := hrest.error []
    have hd : decodeRequest buf = .error msg := by
      unfold decodeRequest decodeMultiBulk
      rw [hhead]
      dsimp only
      rw [if_pos rfl, hcount]
      exact hmsg
    rw [drainAll_error hd]
    exact ⟨msg, rfl, hline⟩
  | later hd _ ih =>
    rw [drainAll_done decodeRequest_shrinks hd]
    exact ih

/-- Where it does not, the error is one line. -/
theorem oneLine_drainAll {msg : Bytes} (hbuf : ¬Strays buf)
    (h : (drainAll decodeRequest buf).2.2 = some msg) : OneLine msg := by
  induction hn : buf.length using Nat.strongRecOn generalizing buf with
  | ind n ih =>
    cases hd : decodeRequest buf with
    | done argv rest =>
      have hlt := decodeRequest_shrinks _ _ _ hd
      rw [drainAll_done decodeRequest_shrinks hd] at h
      exact ih rest.length (by omega) (fun hrest => hbuf (.later hd hrest)) h rfl
    | incomplete =>
      rw [drainAll_incomplete hd] at h
      cases h
    | error e =>
      rw [drainAll_error hd] at h
      cases h
      exact oneLine_decodeRequest hd hbuf

/-- The error of the parser is one line, but for a stream that strays. -/
theorem oneLine_errorMsg_iff (buf data : Bytes) :
    OneLine (RequestParser.feed ⟨buf, []⟩ data).2.errorMsg ↔
      kMaxBulkBytes < (buf ++ data).length ∨ ¬Strays (buf ++ data) := by
  have hnone : ∀ b, ¬(RequestParser.mk b []).hasError = true := fun b h => by cases h
  unfold RequestParser.feed
  rw [if_neg (hnone buf)]
  dsimp only
  by_cases hbig : kMaxBulkBytes < (buf ++ data).length
  · rw [if_pos hbig]
    have htext : OneLine (bytes "ERR Protocol error: too big request buffer") := by decide
    exact ⟨fun _ => .inl hbig, fun _ => htext⟩
  · rw [if_neg hbig]
    unfold RequestParser.parseBuffered
    rw [if_neg (hnone _), tryParseOne_eq]
    dsimp only
    constructor
    · intro hline
      refine .inr fun hstrays => ?_
      obtain ⟨msg, hmsg, hnot⟩ := hstrays.error
      rw [hmsg] at hline
      exact hnot hline
    · intro h
      cases hmsg : (drainAll decodeRequest (buf ++ data)).2.2 with
      | none => decide
      | some msg => exact oneLine_drainAll (h.resolve_left hbig) hmsg

end TinyRedis.Resp
