import TinyRedis.Lib.ByteReader
import TinyRedis.Resp.Chunking

/-!
# What the parser accepts

`TryParseMultiBulk` takes a request off the buffer exactly where the grammar has one, and gives no
error for a part of a request whose header lines are short enough.

`AppendBulkArray` writes a command as such a request. The length in front of every payload says
where it ends, so the payloads may have any bytes, and the requests may follow one another.
-/

namespace TinyRedis.Resp

open Lib Lib.Incremental Lib.ByteReader List

variable {rest : Bytes} {items : List Bytes}

/-! ## The grammar -/

/-- The lines of the elements are their header lines. -/
theorem Bulks.bulkLines {hs ss : List Bytes} {b : Bytes} (hb : Bulks hs ss b) :
    (Resp.bulkLines ss.length b).1 = hs.map (lineOf .bulkLength) := by
  induction hb with
  | nil => rfl
  | @cons h s b hs ss hh hsmall hb ih =>
    obtain ⟨digits, -, -, hup⟩ := hh.splitLine (by decide) (s ++ crlf ++ b)
    have hd : decodeBulk (h ++ s ++ crlf ++ b) = .done s b :=
      decodeBulk_eq_done.2 ⟨h, hh, hsmall, rfl⟩
    rw [length_cons, Resp.bulkLines, if_neg (not_not_intro (decodeBulk_done hd).1), hd]
    simp only [ih, map_cons, lineOf, append_assoc] at hup ⊢
    rw [hup]

/-- The lines of a request fit when its header lines do. -/
theorem Frame.fits {headers argv : List Bytes} {frame : Bytes} (hf : Frame headers argv frame)
    (hshort : ∀ h ∈ headers, (upToLf h).length ≤ 32) :
    ∀ l ∈ (requestLines frame).1, l.2 ≤ l.1.limit := by
  obtain @⟨h, b, hs, ss, hh, hsmall, hb⟩ := hf
  have hhead : (h ++ b).head? = some 42 := by
    obtain ⟨digits, eol, -, -, rfl⟩ := hh
    rfl
  obtain ⟨digits, -, -, hup⟩ := hh.splitLine (by decide) b
  unfold requestLines
  rw [hhead, (decodeCount_eq_done hhead).2 ⟨h, hh, hsmall, rfl⟩]
  simp only [if_true, hb.bulkLines, lineOf, hup, forall_mem_cons, forall_mem_map]
  exact forall_mem_cons.1 hshort

/-- The multibulk parser accepts exactly its grammar. It takes a frame off the buffer and gives its
payloads; it gives no error for a part of a frame with short header lines; and where it takes
nothing the parser's buffer stays as it is. -/
theorem tryParseMultiBulk_accepts (buf : Bytes) (hstar : buf.head? = some 42) :
    ((∃ argv rest, tryParseMultiBulk buf = .done argv rest) ↔
      ∃ headers argv frame, Frame headers argv frame ∧ frame <+: buf) ∧
    (∀ argv rest, tryParseMultiBulk buf = .done argv rest ↔
      ∃ headers frame, Frame headers argv frame ∧ buf = frame ++ rest) ∧
    (∀ headers argv frame, Frame headers argv frame →
      (∀ h ∈ headers, (upToLf h).length ≤ 32) → buf <+: frame →
        ∀ msg, tryParseMultiBulk buf ≠ .error msg) ∧
    ((∀ argv rest, tryParseMultiBulk buf ≠ .done argv rest) →
      ∀ msg, (RequestParser.parseBuffered ⟨buf, msg⟩).2.buf = buf) := by
  have htake : ∀ argv rest, tryParseMultiBulk buf = .done argv rest ↔
      ∃ headers frame, Frame headers argv frame ∧ buf = frame ++ rest := fun argv rest => by
    rw [tryParseMultiBulk_eq, decodeMultiBulk_eq_done hstar]
  have hone : tryParseOne buf = tryParseMultiBulk buf := by
    rw [tryParseOne_eq, decodeRequest, hstar, tryParseMultiBulk_eq]
    exact if_pos rfl
  refine ⟨?_, htake, ?_, ?_⟩
  · constructor
    · rintro ⟨argv, rest, hd⟩
      obtain ⟨headers, frame, hf, rfl⟩ := (htake argv rest).1 hd
      exact ⟨headers, argv, frame, hf, frame.prefix_append rest⟩
    · rintro ⟨headers, argv, frame, hf, rest, rfl⟩
      exact ⟨argv, rest, (htake argv rest).2 ⟨headers, frame, hf, rfl⟩⟩
  · rintro headers argv frame hf hshort ⟨more, rfl⟩ msg herr
    -- An error would still be one for the whole frame, which is accepted.
    have hext := decodeRequest_more buf more (hf.fits hshort)
    rw [← tryParseOne_eq, hone, herr] at hext
    have hwhole : decodeMultiBulk (buf ++ more) = .done argv [] :=
      (decodeMultiBulk_eq_done (head?_more hstar)).2 ⟨headers, _, hf, by simp⟩
    have herr' : tryParseOne (buf ++ more) = .error msg := hext
    rw [tryParseOne_eq, decodeRequest, head?_more hstar] at herr'
    exact absurd (hwhole.symm.trans herr') (by simp)
  · intro hnone msg
    unfold RequestParser.parseBuffered
    split_ifs
    · rfl
    · cases hd : tryParseMultiBulk buf with
      | done argv rest => exact absurd hd (hnone argv rest)
      | incomplete => rw [drainAll_incomplete (hone.trans hd)]
      | error e => rw [drainAll_error (hone.trans hd)]

/-- A request of two elements, the second with a payload of CR LF, whose lines end in LF alone. -/
theorem tryParseMultiBulk_accepts_two :
    (bytes "*2\n$1\na\r\n$2\n\r\n\r\n*1").head? = some 42 ∧
      ∃ argv rest, tryParseMultiBulk (bytes "*2\n$1\na\r\n$2\n\r\n\r\n*1") = .done argv rest :=
  ⟨rfl, (tryParseMultiBulk_accepts _ rfl).1.2 ⟨[bytes "*2\n", bytes "$1\n", bytes "$2\n"],
    [bytes "a", crlf], bytes "*2\n$1\na\r\n$2\n\r\n\r\n",
    .mk ⟨bytes "2", _, ⟨by decide, by decide +kernel, rfl⟩, .lf, rfl⟩ (by decide)
      (.cons ⟨bytes "1", _, ⟨by decide, by decide +kernel, rfl⟩, .lf, rfl⟩ (by decide)
        (.cons ⟨bytes "2", _, ⟨by decide, by decide +kernel, rfl⟩, .lf, rfl⟩ (by decide) .nil)),
    by decide⟩⟩

/-! ## The encoder -/

/-- A printed length is a header line. -/
theorem header_print (c : UInt8) (n : ℕ) : Header c n (c :: Decimal.print n ++ crlf) :=
  ⟨_, _, ⟨Decimal.print_ne_nil n, fun _ hc => Decimal.isDigit_of_mem_print hc,
    Decimal.value_print n⟩, .crlf, rfl⟩

/-- A bulk reply is appended to what is there. -/
theorem appends_bulkReply : Appends appendBulkReply := fun out s => by simp [appendBulkReply]

/-- The elements of a command. -/
theorem bulks_encode (hlen : ∀ s ∈ items, s.length ≤ kMaxBulkBytes) :
    ∃ hs, Bulks hs items (items.flatMap (appendBulkReply [])) := by
  induction items with
  | nil => exact ⟨[], .nil⟩
  | cons s items ih =>
    rw [forall_mem_cons] at hlen
    obtain ⟨hs, hb⟩ := ih hlen.2
    exact ⟨_, .cons (header_print 36 s.length) hlen.1 hb⟩

/-- A bulk array is a header and its bulks. -/
theorem appendBulkArray_eq (out : Bytes) (items : List Bytes) :
    appendBulkArray out items = out ++
      (42 :: Decimal.print items.length ++ crlf ++ items.flatMap (appendBulkReply [])) := by
  have hprint : printInt items.length = Decimal.print items.length := by simp [printInt]
  unfold appendBulkArray
  rw [foldl_appends appends_bulkReply, appendArrayReply, hprint]
  simp

/-- A command. -/
theorem decodeRequest_encode (hcount : items.length ≤ kMaxMultiBulkElements)
    (hlen : ∀ s ∈ items, s.length ≤ kMaxBulkBytes) :
    decodeRequest (appendBulkArray [] items ++ rest) = .done items rest := by
  obtain ⟨hs, hb⟩ := bulks_encode hlen
  have hhead : (appendBulkArray [] items ++ rest).head? = some 42 := by
    rw [appendBulkArray_eq]
    rfl
  unfold decodeRequest
  rw [hhead]
  refine (if_pos rfl).trans ((decodeMultiBulk_eq_done hhead).2
    ⟨_, _, .mk (header_print 42 items.length) hcount hb, ?_⟩)
  rw [appendBulkArray_eq, nil_append]

/-- A bulk array is appended to what is there. -/
theorem appends_bulkArray : Appends appendBulkArray := fun out items => by
  rw [appendBulkArray_eq out, appendBulkArray_eq [], nil_append]

/-- A payload is part of the encoding. -/
theorem length_le_encode {s : Bytes} (hs : s ∈ items) :
    s.length ≤ (appendBulkArray [] items).length := by
  have h1 : s.length ≤ (appendBulkReply [] s).length := by
    simp only [appendBulkReply, length_append]
    omega
  have h2 : (appendBulkReply [] s).length ≤ (items.flatMap (appendBulkReply [])).length :=
    (sublist_flatten_of_mem (mem_map_of_mem hs)).length_le
  rw [appendBulkArray_eq]
  simp only [nil_append, length_append]
  omega

/-- Encoded commands are drained as they were. -/
theorem drainAll_encode (cmds : List (List Bytes))
    (hcount : ∀ items ∈ cmds, items.length ≤ kMaxMultiBulkElements)
    (hlen : (cmds.flatMap (appendBulkArray [])).length ≤ kMaxBulkBytes) :
    drainAll decodeRequest (cmds.flatMap (appendBulkArray [])) = (cmds, [], none) := by
  induction cmds with
  | nil => rfl
  | cons items cmds ih =>
    rw [flatMap_cons, length_append] at hlen
    have hd : decodeRequest (appendBulkArray [] items ++ cmds.flatMap (appendBulkArray [])) =
        .done items (cmds.flatMap (appendBulkArray [])) :=
      decodeRequest_encode (hcount items mem_cons_self) fun s hs => by
        have := length_le_encode hs
        omega
    rw [flatMap_cons, drainAll_done decodeRequest_shrinks hd,
      ih (fun i hi => hcount i (mem_cons_of_mem items hi)) (by omega)]

/-- The parser returns the commands that were encoded, and is left with an empty buffer and without
an error. -/
theorem feed_encode (cmds : List (List Bytes))
    (hcount : ∀ items ∈ cmds, items.length ≤ kMaxMultiBulkElements)
    (hlen : (cmds.foldl appendBulkArray []).length ≤ kMaxBulkBytes) :
    RequestParser.fresh.feed (cmds.foldl appendBulkArray []) = (cmds, .fresh) := by
  rw [foldl_appends appends_bulkArray, nil_append] at hlen ⊢
  have hfeed := RequestParser.feed_ofState ([], none) (cmds.flatMap (appendBulkArray [])) (by simp)
    (by simpa using hlen)
  have hdrain := drainAll_encode cmds hcount hlen
  have hstep : Incremental.feed decodeRequest ([], none) (cmds.flatMap (appendBulkArray [])) =
      (cmds, [], none) := hdrain
  rw [hstep] at hfeed
  exact hfeed

/-- A command with an empty payload and one with CR, LF, NUL, `*`, and `$`. -/
theorem feed_encode_binary :
    RequestParser.fresh.feed
      ([[bytes "SET", [], bytes "*1\r\n$\x00"], [bytes "PING"]].foldl appendBulkArray []) =
      ([[bytes "SET", [], bytes "*1\r\n$\x00"], [bytes "PING"]], .fresh) :=
  feed_encode _ (by decide) (by decide)

end TinyRedis.Resp
