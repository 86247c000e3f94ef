import TinyImx.Intelligence.HttpText

/-!
# Parsing an HTTP response

`HttpResponseParser` collects the bytes it is fed, reads the header once the blank line is there, and
reads the body on every call from its start: so many bytes as `Content-Length` says, chunks, or all
that comes until the connection closes.  Sums and differences of sizes are those of an `Arithmetic`:
that of the machine, or one that stops where a result does not fit.
-/

namespace TinyImx.Intelligence

open Local (Bytes ascii)

/-! ## Sizes -/

structure Arithmetic where
  add : ℕ → ℕ → Except Fault ℕ
  sub : ℕ → ℕ → Except Fault ℕ

def machine : Arithmetic where
  add a b := .ok ((a + b) % 2 ^ 64)
  sub a b := .ok ((a + 2 ^ 64 - b) % 2 ^ 64)

/-! ## The response -/

structure HttpResponse where
  status : ℤ := 0
  reason : Bytes := []
  headers : List (Bytes × Bytes) := []
  body : Bytes := []

/-- The fields of `HttpResponseParser` but for `max_body_bytes_`. -/
structure HttpResponseParser where
  buffer : Bytes := []
  response : HttpResponse := {}
  headersParsed : Bool := false
  chunked : Bool := false
  hasContentLength : Bool := false
  contentLength : UInt64 := 0
  bodyOffset : ℕ := 0
  complete : Bool := false
  failed : Bool := false
  error : Bytes := []

namespace HttpResponseParser

def kMaxHeaderBytes : ℕ := 64 * 1024

variable (parser : HttpResponseParser)

def fail (error : Bytes) : HttpResponseParser :=
  if parser.complete || parser.failed then parser else { parser with failed := true, error }

/-! ## The header -/

/-- `stream >> number` of an `int`: what is stored, whether it was a number, and what is left. -/
def extractInt (text : Bytes) : ℤ × Bool × Bytes :=
  let text := text.dropWhile isSpace
  let negative := text.head? = some 45
  let text := if negative ∨ text.head? = some 43 then text.tail else text
  let number := text.takeWhile fun c => 48 ≤ c ∧ c ≤ 57
  let rest := text.dropWhile fun c => 48 ≤ c ∧ c ≤ 57
  match number, digits 10 number with
  | [], _ => (0, false, rest)
  | _, none => (0, false, rest)
  | _, some n =>
    if negative then
      if n ≤ 2 ^ 31 then (-n, true, rest) else (-2 ^ 31, false, rest)
    else if n < 2 ^ 31 then (n, true, rest) else (2 ^ 31 - 1, false, rest)

def parseStatusLine (line : Bytes) : HttpResponse × Bool :=
  match extractWord line with
  | none => ({}, false)
  | some (version, rest) =>
    let (status, valid, rest) := extractInt rest
    if valid ∧ (version = ascii "HTTP/1.1" ∨ version = ascii "HTTP/1.0") then
      ({ status, reason := trim rest }, true)
    else ({ status }, false)

def addHeader (headers : List (Bytes × Bytes)) (key value : Bytes) : List (Bytes × Bytes) :=
  if (headerValue headers key).isSome then
    headers.map fun header =>
      if header.1 = key then (key, header.2 ++ ascii "," ++ value) else header
  else headers ++ [(key, value)]

def parseHeaderLines : List Bytes → List (Bytes × Bytes) → List (Bytes × Bytes) × Option Bytes
  | [], headers => (headers, none)
  | line :: lines, headers =>
    let line := popCr line
    if line = [] then parseHeaderLines lines headers
    else if (58 : UInt8) ∉ line then (headers, some (ascii "malformed HTTP response header"))
    else
      let key := lower (trim (line.takeWhile (· ≠ 58)))
      let value := trim ((line.dropWhile (· ≠ 58)).tail)
      if key = [] then (headers, some (ascii "empty HTTP response header name"))
      else parseHeaderLines lines (addHeader headers key value)

structure Framing where
  chunked : Bool := false
  hasContentLength : Bool := false
  contentLength : UInt64 := 0

/-- The checks of `ParseHeaders` on `Transfer-Encoding` and `Content-Length`, with the error. -/
def parseFraming (maxBodyBytes : UInt64) (headers : List (Bytes × Bytes)) :
    Framing × Option Bytes :=
  let transfer := lower (header headers (ascii "transfer-encoding"))
  if transfer ≠ [] ∧ transfer ≠ ascii "chunked" then
    ({}, some (ascii "unsupported HTTP Transfer-Encoding: " ++ transfer))
  else
    let chunked := transfer ≠ []
    let contentLength := header headers (ascii "content-length")
    if contentLength = [] then ({ chunked }, none)
    else match fromChars 10 contentLength with
      | none =>
        ({ chunked, hasContentLength := true }, some (ascii "invalid HTTP Content-Length"))
      | some n =>
        let framing : Framing := { chunked, hasContentLength := true, contentLength := n }
        if maxBodyBytes < n then
          (framing, some (ascii "HTTP response body exceeds configured limit"))
        else if chunked then
          (framing,
            some (ascii "HTTP response contains both Transfer-Encoding and Content-Length"))
        else (framing, none)

/-- The header block: the response without its body and its framing, as far as they were read, and
the error. -/
def parseHead (maxBodyBytes : UInt64) (headerBlock : Bytes) :
    HttpResponse × Framing × Option Bytes :=
  match getlines headerBlock with
  | [] => ({}, {}, some (ascii "missing HTTP status line"))
  | statusLine :: lines =>
    match parseStatusLine (popCr statusLine) with
    | (response, false) => (response, {}, some (ascii "invalid HTTP status line"))
    | (response, true) =>
      match parseHeaderLines lines [] with
      | (headers, some error) => ({ response with headers }, {}, some error)
      | (headers, none) => ({ response with headers }, parseFraming maxBodyBytes headers)

def withHead (response : HttpResponse) (framing : Framing) : HttpResponseParser :=
  { parser with
    response, chunked := framing.chunked, hasContentLength := framing.hasContentLength
    contentLength := framing.contentLength }

def parseHeaders (maxBodyBytes : UInt64) : Bool × HttpResponseParser :=
  if parser.headersParsed then (true, parser)
  else match Search.find blankLine parser.buffer with
    | none =>
      (false,
        if kMaxHeaderBytes < parser.buffer.length then
          parser.fail (ascii "HTTP response headers exceed limit")
        else parser)
    | some headerEnd =>
      if kMaxHeaderBytes < headerEnd then
        (false, parser.fail (ascii "HTTP response headers exceed limit"))
      else
        match parseHead maxBodyBytes (parser.buffer.take headerEnd) with
        | (response, framing, some error) =>
          (false, (parser.withHead response framing).fail error)
        | (response, framing, none) =>
          (true,
            { parser.withHead response framing with
              bodyOffset := headerEnd + 4, headersParsed := true })

/-! ## The body -/

def parseContentLengthBody (arithmetic : Arithmetic) : Except Fault HttpResponseParser := do
  let bodyEnd ← arithmetic.add parser.bodyOffset parser.contentLength.toNat
  if parser.buffer.length < bodyEnd then pure parser
  else
    let body ← copy [] parser.buffer parser.bodyOffset parser.contentLength.toNat
    pure { parser with response := { parser.response with body }, complete := true }

/-- What a round of the loop over the chunks does; the body is complete before a position. -/
inductive ChunkStep where
  | more
  | failed (error : Bytes)
  | done (body : Bytes) (stop : ℕ)
  | next (pos : ℕ) (decoded : Bytes)

def chunkSize (line : Bytes) : Except Bytes UInt64 :=
  let sizeText := trim (line.takeWhile (· ≠ 59))
  if sizeText = [] then .error (ascii "empty HTTP chunk size")
  else match fromChars 16 sizeText with
    | none => .error (ascii "invalid HTTP chunk size")
    | some size => .ok size

def lastChunk (buffer : Bytes) (pos : ℕ) (decoded : Bytes) : ChunkStep :=
  if buffer.length < pos + 2 then .more
  else if (buffer.drop pos).take 2 = crlf then .done decoded (pos + 2)
  else match Search.findFrom blankLine buffer pos with
    | none => .more
    | some trailerEnd => .done decoded (trailerEnd + 4)

def chunkData (arithmetic : Arithmetic) (maxBodyBytes : UInt64) (buffer : Bytes) (pos : ℕ)
    (decoded : Bytes) (size : UInt64) : Except Fault ChunkStep := do
  let room ← arithmetic.sub maxBodyBytes.toNat decoded.length
  if room < size.toNat then
    pure (.failed (ascii "HTTP response body exceeds configured limit"))
  else
    let chunkEnd ← arithmetic.add (← arithmetic.add pos size.toNat) 2
    if buffer.length < chunkEnd then pure .more
    else
      let decoded ← copy decoded buffer pos size.toNat
      if (buffer.drop (pos + size.toNat)).take 2 ≠ crlf then
        pure (.failed (ascii "malformed HTTP chunk terminator"))
      else pure (.next (pos + size.toNat + 2) decoded)

def chunkStep (arithmetic : Arithmetic) (maxBodyBytes : UInt64) (buffer : Bytes) (pos : ℕ)
    (decoded : Bytes) : Except Fault ChunkStep :=
  match Search.findFrom crlf buffer pos with
  | none => .ok .more
  | some lineEnd =>
    match chunkSize ((buffer.drop pos).take (lineEnd - pos)) with
    | .error error => .ok (.failed error)
    | .ok size =>
      if size = 0 then .ok (lastChunk buffer (lineEnd + 2) decoded)
      else chunkData arithmetic maxBodyBytes buffer (lineEnd + 2) decoded size

/-- The loop of `ParseChunkedBody`, for at most so many rounds; `none` if they do not suffice. -/
def chunkLoop (arithmetic : Arithmetic) (maxBodyBytes : UInt64) (buffer : Bytes) :
    ℕ → ℕ → Bytes → Except Fault (Option ChunkStep)
  | 0, _, _ => .ok none
  | rounds + 1, pos, decoded => do
    match ← chunkStep arithmetic maxBodyBytes buffer pos decoded with
    | .next pos decoded => chunkLoop arithmetic maxBodyBytes buffer rounds pos decoded
    | step => pure (some step)

def parseChunkedBody (arithmetic : Arithmetic) (maxBodyBytes : UInt64) :
    Except Fault HttpResponseParser := do
  match ← chunkLoop arithmetic maxBodyBytes parser.buffer (parser.buffer.length + 1)
      parser.bodyOffset [] with
  | some (.failed error) => pure (parser.fail error)
  | some (.done body _) =>
    pure { parser with response := { parser.response with body }, complete := true }
  | _ => pure parser

/-! ## The calls -/

def parseBody (arithmetic : Arithmetic) (maxBodyBytes : UInt64) : Except Fault HttpResponseParser :=
  if parser.chunked then parser.parseChunkedBody arithmetic maxBodyBytes
  else if parser.hasContentLength then parser.parseContentLengthBody arithmetic
  else .ok parser

def parse (arithmetic : Arithmetic) (maxBodyBytes : UInt64) : Except Fault HttpResponseParser :=
  if parser.complete || parser.failed then .ok parser
  else match parser.parseHeaders maxBodyBytes with
    | (false, parser) => .ok parser
    | (true, parser) => parser.parseBody arithmetic maxBodyBytes

def feed (arithmetic : Arithmetic) (maxBodyBytes : UInt64) (bytes : Bytes) :
    Except Fault HttpResponseParser :=
  if parser.complete || parser.failed || bytes.isEmpty then .ok parser
  else do
    let size ← arithmetic.add parser.buffer.length bytes.length
    let limit ← arithmetic.add (← arithmetic.add maxBodyBytes.toNat kMaxHeaderBytes) 1024
    if limit < size then pure (parser.fail (ascii "HTTP response exceeds configured limit"))
    else parse { parser with buffer := parser.buffer ++ bytes } arithmetic maxBodyBytes

def finishOnEof (arithmetic : Arithmetic) (maxBodyBytes : UInt64) :
    Except Fault HttpResponseParser :=
  if parser.complete || parser.failed then .ok parser
  else match parser.parseHeaders maxBodyBytes with
    | (false, parser) =>
      .ok (parser.fail (ascii "connection closed before complete HTTP headers"))
    | (true, parser) =>
      if parser.chunked || parser.hasContentLength then do
        let parser ← parser.parse arithmetic maxBodyBytes
        pure (parser.fail (ascii "connection closed before complete HTTP response body"))
      else do
        let bodySize ← arithmetic.sub parser.buffer.length parser.bodyOffset
        if maxBodyBytes.toNat < bodySize then
          pure (parser.fail (ascii "HTTP response body exceeds configured limit"))
        else
          let body ← copy [] parser.buffer parser.bodyOffset bodySize
          pure { parser with response := { parser.response with body }, complete := true }

def feedAll (arithmetic : Arithmetic) (maxBodyBytes : UInt64) (pieces : List Bytes) :
    Except Fault HttpResponseParser :=
  pieces.foldlM (fun parser piece => parser.feed arithmetic maxBodyBytes piece) {}

def receive (arithmetic : Arithmetic) (maxBodyBytes : UInt64) (pieces : List Bytes) :
    Except Fault HttpResponseParser := do
  (← feedAll arithmetic maxBodyBytes pieces).finishOnEof arithmetic maxBodyBytes

/-! ## The rounds of the loop -/

variable {arithmetic : Arithmetic} {maxBodyBytes : UInt64} {buffer : Bytes} {rounds pos : ℕ}
  {decoded : Bytes}

theorem ok_bind {α β : Type} (a : α) (f : α → Except Fault β) : (Except.ok a >>= f) = f a := rfl

theorem chunkLoop_error {fault : Fault}
    (h : chunkStep arithmetic maxBodyBytes buffer pos decoded = .error fault) :
    chunkLoop arithmetic maxBodyBytes buffer (rounds + 1) pos decoded = .error fault := by
  rw [chunkLoop, h]
  rfl

theorem chunkLoop_next {pos' : ℕ} {decoded' : Bytes}
    (h : chunkStep arithmetic maxBodyBytes buffer pos decoded = .ok (.next pos' decoded')) :
    chunkLoop arithmetic maxBodyBytes buffer (rounds + 1) pos decoded =
      chunkLoop arithmetic maxBodyBytes buffer rounds pos' decoded' := by
  rw [chunkLoop, h, ok_bind]

theorem chunkLoop_stop {step : ChunkStep}
    (h : chunkStep arithmetic maxBodyBytes buffer pos decoded = .ok step)
    (hstop : ∀ pos' decoded', step ≠ .next pos' decoded') :
    chunkLoop arithmetic maxBodyBytes buffer (rounds + 1) pos decoded = .ok (some step) := by
  rw [chunkLoop, h, ok_bind]
  cases step with
  | next pos' decoded' => exact absurd rfl (hstop pos' decoded')
  | more | failed _ | done _ _ => rfl

end HttpResponseParser

end TinyImx.Intelligence
