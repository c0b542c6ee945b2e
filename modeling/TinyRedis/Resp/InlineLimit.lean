import TinyRedis.Resp.Chunking

/-!
# The limit of an inline request

`TryParseInline` compares the buffer with `kMaxInlineBytes` only where it finds no LF in it. So a
line that is too long is refused when a chunk ends in it behind the limit. When its LF comes with
the chunk that passes the limit, the line is a request like any other.
-/

namespace TinyRedis.Resp

open Lib Lib.Incremental List

variable {buf chunk line rest : Bytes} {chunks : List Bytes} {seen lineLen : ℕ}

/-- The error for a line that is too long. -/
def tooBigInline : Bytes := bytes "ERR Protocol error: too big inline request"

/-- What a stream came to when its line was refused: no command, and the error. -/
def Refused (r : List (List Bytes) × RequestParser) : Prop := r.1 = [] ∧ r.2.errorMsg = tooBigInline

/-- Some chunk ends in the line behind the limit, while the buffer is not too big as a whole. `seen`
bytes came before the chunks. -/
def CutBehindLimit (seen lineLen : ℕ) (chunks : List Bytes) : Prop :=
  ∃ fed, fed <+: chunks ∧ kMaxInlineBytes < seen + fed.flatten.length ∧
    seen + fed.flatten.length ≤ min lineLen kMaxBulkBytes

/-- The first chunk counts among the bytes that were seen. -/
theorem cutBehindLimit_cons (hseen : seen ≤ kMaxInlineBytes) :
    CutBehindLimit seen lineLen (chunk :: chunks) ↔
      CutBehindLimit (seen + chunk.length) lineLen chunks := by
  constructor
  · rintro ⟨fed, hfed, hlimit, hle⟩
    rcases prefix_cons_iff.1 hfed with rfl | ⟨fed', rfl, hfed'⟩
    · exact absurd hlimit (not_lt.2 hseen)
    · rw [flatten_cons, length_append, ← Nat.add_assoc] at hlimit hle
      exact ⟨fed', hfed', hlimit, hle⟩
  · rintro ⟨fed, hfed, hlimit, hle⟩
    refine ⟨chunk :: fed, prefix_cons_iff.2 (.inr ⟨fed, rfl, hfed⟩), ?_⟩
    rw [flatten_cons, length_append, ← Nat.add_assoc]
    exact ⟨hlimit, hle⟩

/-- What was seen of a line is past its end, or no part of it behind the limit is still to come. -/
theorem not_cutBehindLimit (h : min lineLen kMaxBulkBytes < seen) :
    ¬CutBehindLimit seen lineLen chunks := by
  rintro ⟨fed, -, -, hle⟩
  omega

/-! ## One chunk -/

/-- Bytes that do not start with `*` are a line. -/
theorem decodeRequest_of_ne (h : buf.head? ≠ some 42) : decodeRequest buf = decodeInline buf := by
  cases buf with
  | nil => rfl
  | cons c cs => exact if_neg fun hc => h (by rw [hc]; rfl)

/-- After an error there are no commands. -/
theorem feedAll_of_error {p : RequestParser} (h : p.hasError = true) :
    RequestParser.feedAll chunks p = ([], p) := by
  induction chunks with
  | nil => rfl
  | cons chunk chunks ih =>
    have hfeed : p.feed chunk = ([], p) := by
      rw [RequestParser.feed, if_pos h, RequestParser.parseBuffered, if_pos h]
    rw [RequestParser.feedAll]
    simp only [hfeed, ih, append_nil]

/-- A chunk below the limit is drained at once. -/
theorem feed_eq_drainAll (hlen : (buf ++ chunk).length ≤ kMaxBulkBytes) :
    RequestParser.feed ⟨buf, []⟩ chunk = ((drainAll decodeRequest (buf ++ chunk)).1,
      .ofState (drainAll decodeRequest (buf ++ chunk)).2) :=
  RequestParser.feed_ofState (buf, none) chunk (by simp) (by rwa [← length_append])

/-- A chunk that brings the LF brings a command. -/
theorem not_refused_of_lf (hlf : kLF ∈ buf ++ chunk) (hhead : (buf ++ chunk).head? ≠ some 42)
    (hlen : (buf ++ chunk).length ≤ kMaxBulkBytes) :
    ¬Refused (RequestParser.feedAll (chunk :: chunks) ⟨buf, []⟩) := by
  obtain ⟨l, r, hl⟩ : ∃ l r, splitLine (buf ++ chunk) = some (l, r) := by
    cases hline : splitLine (buf ++ chunk) with
    | none => exact absurd hlf (splitLine_eq_none.1 hline)
    | some p => exact ⟨p.1, p.2, rfl⟩
  have hd : decodeRequest (buf ++ chunk) = .done (splitWords l.length l) r := by
    rw [decodeRequest_of_ne hhead, decodeInline, hl]
  rintro ⟨hnone, -⟩
  rw [RequestParser.feedAll, feed_eq_drainAll hlen, drainAll_done decodeRequest_shrinks hd] at hnone
  cases hnone

/-- A chunk that does not bring the LF is kept, up to the limit. -/
theorem feed_of_notMem (hlf : kLF ∉ buf ++ chunk) (hhead : (buf ++ chunk).head? ≠ some 42)
    (hlen : (buf ++ chunk).length ≤ kMaxBulkBytes) :
    RequestParser.feed ⟨buf, []⟩ chunk = ([], ⟨buf ++ chunk,
      if kMaxInlineBytes < (buf ++ chunk).length then tooBigInline else []⟩) := by
  have hd : decodeRequest (buf ++ chunk) = if kMaxInlineBytes < (buf ++ chunk).length then
      .error tooBigInline else .incomplete := by
    rw [decodeRequest_of_ne hhead, decodeInline, splitLine_of_notMem hlf]
    rfl
  rw [feed_eq_drainAll hlen]
  by_cases hbig : kMaxInlineBytes < (buf ++ chunk).length
  · rw [if_pos hbig] at hd ⊢
    rw [drainAll_error hd]
    rfl
  · rw [if_neg hbig] at hd ⊢
    rw [drainAll_incomplete hd]
    rfl

/-! ## The chunks of a stream -/

/-- The chunks from one in the line on. The induction is on the chunks; a chunk passes the end of
the line, or the limit, or is kept. -/
theorem refused_iff_cutBehindLimit (hstream : buf ++ chunks.flatten = line ++ kLF :: rest)
    (hline : kLF ∉ line) (hinline : line.head? ≠ some 42) (hlong : kMaxInlineBytes < line.length)
    (hbuf : buf.length ≤ kMaxInlineBytes) :
    Refused (RequestParser.feedAll chunks ⟨buf, []⟩) ↔
      CutBehindLimit buf.length line.length chunks := by
  induction chunks generalizing buf with
  | nil =>
    have hlen := congrArg List.length hstream
    rw [flatten_nil, append_nil, length_append] at hlen
    omega
  | cons chunk chunks ih =>
    rw [flatten_cons, ← append_assoc] at hstream
    rw [cutBehindLimit_cons hbuf, ← length_append]
    have hpart : buf ++ chunk <+: line ++ kLF :: rest := ⟨_, hstream⟩
    have hhead : (buf ++ chunk).head? ≠ some 42 := by
      intro hc
      have hwhole : (buf ++ chunk ++ chunks.flatten).head? = some 42 := head?_more hc
      rw [hstream, head?_append_of_ne_nil _ (by rintro rfl; simp at hlong)] at hwhole
      exact hinline hwhole
    by_cases hbulk : kMaxBulkBytes < (buf ++ chunk).length
    · -- The buffer is too big, which is another error.
      refine iff_of_false ?_ (not_cutBehindLimit (by omega))
      have hfeed : RequestParser.feed ⟨buf, []⟩ chunk =
          ([], ⟨buf ++ chunk, bytes "ERR Protocol error: too big request buffer"⟩) := by
        rw [RequestParser.feed, if_neg (by simp [RequestParser.hasError])]
        exact if_pos hbulk
      have htext : bytes "ERR Protocol error: too big request buffer" ≠ tooBigInline := by decide
      rw [Refused, RequestParser.feedAll, hfeed, feedAll_of_error rfl]
      exact fun h => htext h.2
    rw [not_lt] at hbulk
    by_cases hend : line.length < (buf ++ chunk).length
    · have hlf : line ++ [kLF] <+: buf ++ chunk :=
        prefix_of_prefix_length_le ⟨rest, by simp⟩ hpart (by simpa using hend)
      exact iff_of_false (not_refused_of_lf (hlf.subset (by simp)) hhead hbulk)
        (not_cutBehindLimit (by omega))
    · have hlf : kLF ∉ buf ++ chunk := fun hc =>
        hline ((prefix_of_prefix_length_le hpart ⟨_, rfl⟩ (not_lt.1 hend)).subset hc)
      rw [RequestParser.feedAll, feed_of_notMem hlf hhead hbulk]
      by_cases hbig : kMaxInlineBytes < (buf ++ chunk).length
      · rw [if_pos hbig, feedAll_of_error rfl]
        refine iff_of_true ⟨rfl, rfl⟩ ⟨[], nil_prefix, hbig, ?_⟩
        exact le_min (not_lt.1 hend) hbulk
      · rw [if_neg hbig]
        exact ih hstream (not_lt.1 hbig)

/-- A stream whose first request is a line that is too long is refused exactly when a chunk ends in
the line behind the limit (and the buffer is not too big as a whole). -/
theorem inline_refused_iff (chunks : List Bytes) (line rest : Bytes)
    (hstream : chunks.flatten = line ++ kLF :: rest) (hline : kLF ∉ line)
    (hinline : line.head? ≠ some 42) (hlong : kMaxInlineBytes < line.length) :
    Refused (RequestParser.feedAll chunks .fresh) ↔ CutBehindLimit 0 line.length chunks :=
  refused_iff_cutBehindLimit hstream hline hinline hlong (Nat.zero_le _)

/-- A long line. -/
def longLine : Bytes := List.replicate (kMaxInlineBytes + 1) 97

/-- The long line has no line feed and lies between the two limits. -/
theorem longLine_spec : kLF ∉ longLine ∧ longLine.head? ≠ some 42 ∧
    kMaxInlineBytes < longLine.length ∧ longLine.length < kMaxBulkBytes := by
  have hlen : longLine.length = kMaxInlineBytes + 1 := length_replicate
  rw [hlen]
  exact ⟨by simp [longLine, kLF], by simp [longLine, head?_replicate], by omega, by decide⟩

/-- A long line whose LF comes in a chunk of its own is refused. -/
theorem inline_refused_iff_two : Refused (RequestParser.feedAll [longLine, [kLF]] .fresh) := by
  obtain ⟨hline, hinline, hlong, hbulk⟩ := longLine_spec
  refine (inline_refused_iff [longLine, [kLF]] longLine [] rfl hline hinline hlong).2
    ⟨[longLine], by simp, ?_⟩
  rw [flatten_singleton, Nat.zero_add]
  exact ⟨hlong, le_min le_rfl hbulk.le⟩

/-- A line that comes in one chunk with its LF is a command. -/
theorem not_refused_whole {line : Bytes} (hne : line ≠ []) (hinline : line.head? ≠ some 42)
    (hlen : line.length < kMaxBulkBytes) :
    ¬Refused (RequestParser.feedAll [line ++ [kLF]] .fresh) := by
  refine not_refused_of_lf (by simp) ?_ ?_
  · rw [nil_append, head?_append_of_ne_nil _ hne]
    exact hinline
  · rw [nil_append, length_append, length_singleton]
    exact hlen

/-- The same stream in one chunk is a command. -/
theorem inline_limit_passed : kLF ∉ longLine ∧ longLine.head? ≠ some 42 ∧
    kMaxInlineBytes < longLine.length ∧
    ¬Refused (RequestParser.feedAll [longLine ++ [kLF]] .fresh) := by
  obtain ⟨hline, hinline, hlong, hbulk⟩ := longLine_spec
  exact ⟨hline, hinline, hlong, not_refused_whole (cons_ne_nil _ _) hinline hbulk⟩

end TinyRedis.Resp
