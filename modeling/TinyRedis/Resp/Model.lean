import TinyRedis.Lib.Incremental
import TinyRedis.Numeric

/-!
# The request parser and the reply encoders of `src/resp.cpp`

`RequestParser` takes requests from the head of a buffer, one at a time, in the multibulk or in the
inline syntax. The functions that try to take one request return 1, 0, or -1 in the source, with the
request or the error on the side; here these are the three outcomes `done`, `incomplete`, and
`error`. The buffer changes only when a request is taken.

A position in the buffer is a number, as in the source.
-/

namespace TinyRedis.Resp

open Lib Lib.Incremental

/-- `kCR`. -/
def kCR : UInt8 := 13

/-- `kLF`. -/
def kLF : UInt8 := 10

/-- `kMaxInlineBytes`. -/
def kMaxInlineBytes : ℕ := 64 * 1024

/-- `kMaxBulkBytes`. -/
def kMaxBulkBytes : ℕ := 512 * 1024 * 1024

/-- `kMaxMultiBulkElements`. -/
def kMaxMultiBulkElements : ℕ := 1024

/-! ## The parser -/

/-- `IsCrLfAt`. -/
def isCrLfAt (b : Bytes) (i : ℕ) : Bool :=
  decide (i + 1 < b.length) && b[i]? == some kCR && b[i + 1]? == some kLF

/-- The scan for the end of a line, from position `i` with the rest of the buffer ahead: the
position before the LF, or before the CR in front of it. -/
def scanLine : Bytes → ℕ → Bool → Option ℕ
  | [], _, _ => none
  | c :: cs, i, sawCr =>
    if c = kCR then scanLine cs (i + 1) true
    else if c = kLF then some (if sawCr then i - 1 else i)
    else scanLine cs (i + 1) false

/-- `PeekLine`: the length of the first line without its end. -/
def peekLine (buf : Bytes) : Option ℕ := scanLine buf 0 false

/-- A blank between the words of an inline request. -/
def isBlank (c : UInt8) : Bool := c == 32 || c == 9

/-- The loop of `TryParseInline` that splits a line into words. -/
def splitWords : ℕ → Bytes → List Bytes
  | 0, _ => []
  | fuel + 1, line =>
    match line.dropWhile isBlank with
    | [] => []
    | c :: cs =>
      (c :: cs).takeWhile (fun c => !isBlank c) ::
        splitWords fuel ((c :: cs).dropWhile fun c => !isBlank c)

/-- What trying to take one request from the buffer comes to. -/
abbrev Outcome := Incremental.Outcome UInt8 (List Bytes) Bytes

/-- `TryParseInline`. -/
def tryParseInline (buf : Bytes) : Outcome :=
  match peekLine buf with
  | none =>
    if kMaxInlineBytes < buf.length then
      .error (bytes "ERR Protocol error: too big inline request")
    else .incomplete
  | some lineLen =>
    let consumed := lineLen + if isCrLfAt buf lineLen then 2 else 1
    .done (splitWords lineLen (buf.take lineLen)) (buf.drop consumed)

/-- The number of a multibulk-count or bulk-length line: digits only, and in the range of a
`long long`. -/
def parseLength (s : Bytes) : Option ℤ :=
  if s = [] ∨ s.any (fun c => !Decimal.isDigit c) then none else stoll s

/-- The loop of `TryParseMultiBulk` over the elements, from position `pos`. -/
def parseBulks (buf : Bytes) : ℕ → ℕ → List Bytes → Outcome
  | 0, pos, out => .done out (buf.drop pos)
  | k + 1, pos, out =>
    match buf[pos]? with
    | none => .incomplete
    | some c =>
      if c ≠ 36 then
        .error (bytes "ERR Protocol error: expected '$', got '" ++ [c] ++ bytes "'")
      else
        match scanLine (buf.drop pos) pos false with
        | none =>
          if 32 < buf.length - pos then .error (bytes "ERR Protocol error: invalid bulk length")
          else .incomplete
        | some lenLine =>
          match parseLength ((buf.drop (pos + 1)).take (lenLine - (pos + 1))) with
          | none => .error (bytes "ERR Protocol error: invalid bulk length")
          | some bulkLen =>
            if bulkLen < 0 ∨ (kMaxBulkBytes : ℤ) < bulkLen then
              .error (bytes "ERR Protocol error: invalid bulk length")
            else
              let afterLen := lenLine + if isCrLfAt buf lenLine then 2 else 1
              if buf.length < afterLen + bulkLen.toNat + 2 then .incomplete
              else
                let tail := afterLen + bulkLen.toNat
                if buf[tail]? ≠ some kCR ∨ buf[tail + 1]? ≠ some kLF then
                  .error (bytes "ERR Protocol error: expected CRLF after bulk data")
                else
                  parseBulks buf k (tail + 2) (out ++ [(buf.drop afterLen).take bulkLen.toNat])

/-- `TryParseMultiBulk`. -/
def tryParseMultiBulk (buf : Bytes) : Outcome :=
  match peekLine buf with
  | none =>
    if 32 < buf.length then .error (bytes "ERR Protocol error: invalid multibulk length")
    else .incomplete
  | some lineLen =>
    match parseLength ((buf.drop 1).take (lineLen - 1)) with
    | none => .error (bytes "ERR Protocol error: invalid multibulk length")
    | some count =>
      if (kMaxMultiBulkElements : ℤ) < count then
        .error (bytes "ERR Protocol error: invalid multibulk length")
      else
        let pos := lineLen + if isCrLfAt buf lineLen then 2 else 1
        if count ≤ 0 then .done [] (buf.drop pos)
        else if buf.length < pos then .incomplete
        else parseBulks buf count.toNat pos []

/-- `TryParseOne`. -/
def tryParseOne (buf : Bytes) : Outcome :=
  match buf with
  | [] => .incomplete
  | c :: _ => if c = 42 then tryParseMultiBulk buf else tryParseInline buf

/-- `RequestParser`. -/
structure RequestParser where
  buf : Bytes
  errorMsg : Bytes
  deriving DecidableEq, Repr

namespace RequestParser

/-- A new parser. -/
def fresh : RequestParser := ⟨[], []⟩

/-- `has_error`. -/
def hasError (p : RequestParser) : Bool := !p.errorMsg.isEmpty

/-- `reset`. -/
def reset (_ : RequestParser) : RequestParser := ⟨[], []⟩

/-- `ParseBuffered`. Every request that is taken makes the buffer shorter, so the loop runs no more
often than the buffer is long. -/
def parseBuffered (p : RequestParser) : List (List Bytes) × RequestParser :=
  if p.hasError then ([], p)
  else
    let (cmds, buf, e) := drainAll tryParseOne p.buf
    (cmds, ⟨buf, e.getD []⟩)

/-- `Feed`. -/
def feed (p : RequestParser) (data : Bytes) : List (List Bytes) × RequestParser :=
  if p.hasError then p.parseBuffered
  else
    let buf := p.buf ++ data
    if kMaxBulkBytes < buf.length then
      parseBuffered ⟨buf, bytes "ERR Protocol error: too big request buffer"⟩
    else parseBuffered ⟨buf, p.errorMsg⟩

/-- Feed some chunks one after another, and put their commands together. -/
def feedAll : List Bytes → RequestParser → List (List Bytes) × RequestParser
  | [], p => ([], p)
  | chunk :: chunks, p =>
    let r := p.feed chunk
    let rs := feedAll chunks r.2
    (r.1 ++ rs.1, rs.2)

end RequestParser

/-! ## The encoders -/

/-- The end of a line. -/
def crlf : Bytes := [kCR, kLF]

/-- `AppendSimpleReply`. -/
def appendSimpleReply (out s : Bytes) : Bytes := out ++ 43 :: s ++ crlf

/-- `AppendErrorReply`. -/
def appendErrorReply (out s : Bytes) : Bytes := out ++ 45 :: s ++ crlf

/-- `AppendIntReply`. -/
def appendIntReply (out : Bytes) (v : ℤ) : Bytes := out ++ 58 :: printInt v ++ crlf

/-- `AppendBulkReply`. -/
def appendBulkReply (out s : Bytes) : Bytes :=
  out ++ 36 :: Decimal.print s.length ++ crlf ++ s ++ crlf

/-- `AppendNullBulkReply`. -/
def appendNullBulkReply (out : Bytes) : Bytes := out ++ bytes "$-1" ++ crlf

/-- `AppendArrayReply`. -/
def appendArrayReply (out : Bytes) (n : ℤ) : Bytes := out ++ 42 :: printInt n ++ crlf

/-- `AppendNullArrayReply`. -/
def appendNullArrayReply (out : Bytes) : Bytes := out ++ bytes "*-1" ++ crlf

/-- `AppendEmptyArrayReply`. -/
def appendEmptyArrayReply (out : Bytes) : Bytes := out ++ bytes "*0" ++ crlf

/-- `AppendBulkArray`. -/
def appendBulkArray (out : Bytes) (items : List Bytes) : Bytes :=
  items.foldl appendBulkReply (appendArrayReply out items.length)

end TinyRedis.Resp
