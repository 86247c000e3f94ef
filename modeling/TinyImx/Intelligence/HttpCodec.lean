import TinyImx.Intelligence.HttpText
import TinyImx.Net.Buffer

/-!
# Decoding an HTTP request

`HttpCodec::Decode` looks for the blank line behind the header, reads the header, and takes the body
that `Content-Length` announces once it is there.  The end of the body is a sum of machine numbers;
where it wraps, both checks against it pass and the copy of the body throws.
-/

namespace TinyImx.Intelligence

open Local (Bytes ascii)
open Net (Buffer)

structure HttpRequest where
  method : Bytes := []
  target : Bytes := []
  version : Bytes := []
  headers : List (Bytes × Bytes) := []
  body : Bytes := []

inductive HttpDecodeStatus where
  | complete | needMoreData | badRequest | payloadTooLarge | unsupportedTransferEncoding

structure HttpDecodeResult where
  status : HttpDecodeStatus
  request : HttpRequest := {}
  error : String := ""

/-- `line_stream >> request.method >> request.target >> request.version`, and the check of the
version. -/
def parseRequestLine (line : Bytes) : Option HttpRequest := do
  let (method, rest) ← extractWord line
  let (target, rest) ← extractWord rest
  let (version, _) ← extractWord rest
  if version = ascii "HTTP/1.1" then some { method, target, version } else none

def parseHeaderLines : List Bytes → HttpRequest → Except String HttpRequest
  | [], request => .ok request
  | line :: lines, request =>
    let line := popCr line
    if line = [] then parseHeaderLines lines request
    else if (58 : UInt8) ∉ line then .error "malformed header"
    else
      let key := lower (trim (line.takeWhile (· ≠ 58)))
      let value := trim ((line.dropWhile (· ≠ 58)).tail)
      if key = [] then .error "empty header name"
      else if (headerValue request.headers key).isSome then .error "duplicate header"
      else parseHeaderLines lines { request with headers := request.headers ++ [(key, value)] }

def badRequest (error : String) : HttpDecodeResult := { status := .badRequest, error }

/-- `Decode` on the text before the blank line: the request without its body, and the number that
`Content-Length` gives. -/
def parseHead (headerBlock : Bytes) : Except HttpDecodeResult (HttpRequest × UInt64) :=
  match getlines headerBlock with
  | [] => .error (badRequest "missing request line")
  | requestLine :: lines =>
    match parseRequestLine (popCr requestLine) with
    | none => .error (badRequest "invalid HTTP/1.1 request line")
    | some request =>
      match parseHeaderLines lines request with
      | .error error => .error (badRequest error)
      | .ok request =>
        let transferEncoding := lower (header request.headers (ascii "transfer-encoding"))
        if transferEncoding ≠ [] ∧ transferEncoding ≠ ascii "identity" then
          .error
            { status := .unsupportedTransferEncoding
              error := "chunked transfer encoding is not accepted by TinyIMX MCP" }
        else
          let contentLengthText := header request.headers (ascii "content-length")
          if contentLengthText = [] then .ok (request, 0)
          else match fromChars 10 contentLengthText with
            | none => .error (badRequest "invalid Content-Length")
            | some contentLength => .ok (request, contentLength)

def exceedsLimit : HttpDecodeResult :=
  { status := .payloadTooLarge, error := "request exceeds configured limit" }

def totalLength (headerEnd : ℕ) (contentLength : UInt64) : UInt64 :=
  UInt64.ofNat headerEnd + 4 + contentLength

/-- `Decode` of a buffer that is not null, with the buffer it leaves. -/
def decodeBuffer (maxRequestBytes : UInt64) (buffer : Buffer) :
    Except Fault (HttpDecodeResult × Buffer) :=
  let data := buffer.readable
  if maxRequestBytes.toNat < data.length then .ok (exceedsLimit, buffer)
  else match Search.find blankLine data with
    | none => .ok ({ status := .needMoreData }, buffer)
    | some headerEnd =>
      match parseHead (data.take headerEnd) with
      | .error result => .ok (result, buffer)
      | .ok (request, contentLength) =>
        let total := totalLength headerEnd contentLength
        if maxRequestBytes < total then .ok (exceedsLimit, buffer)
        else if data.length < total.toNat then .ok ({ status := .needMoreData }, buffer)
        else do
          let body ← copy [] data (headerEnd + 4) contentLength.toNat
          pure ({ status := .complete, request := { request with body } },
            buffer.retrieve total.toNat)

/-! ## Where the sum wraps -/

/-- What is readable is within the limit, its header is accepted, and the end of the body that it
announces is not a machine number. -/
def Wraps (maxRequestBytes : UInt64) (buffer : Buffer) : Prop :=
  buffer.readableBytes ≤ maxRequestBytes.toNat ∧
    ∃ headerEnd request contentLength, Search.find blankLine buffer.readable = some headerEnd ∧
      parseHead (buffer.readable.take headerEnd) = .ok (request, contentLength) ∧
      2 ^ 64 ≤ headerEnd + 4 + contentLength.toNat

/-- What `Decode` did with a buffer is within its bytes and the limit. -/
inductive Decoded (maxRequestBytes : UInt64) (buffer : Buffer) :
    Except Fault (HttpDecodeResult × Buffer) → Prop where
  | complete (headerEnd : ℕ) (contentLength : UInt64) (request : HttpRequest) (left : Buffer) :
      Search.find blankLine buffer.readable = some headerEnd →
      parseHead (buffer.readable.take headerEnd) = .ok (request, contentLength) →
      headerEnd + 4 + contentLength.toNat ≤ buffer.readableBytes →
      headerEnd + 4 + contentLength.toNat ≤ maxRequestBytes.toNat →
      left.readable = buffer.readable.drop (headerEnd + 4 + contentLength.toNat) →
      Decoded maxRequestBytes buffer (.ok
        ({ status := .complete
           request := { request with
             body := (buffer.readable.drop (headerEnd + 4)).take contentLength.toNat } }, left))
  | other (result : HttpDecodeResult) : result.status ≠ .complete →
      Decoded maxRequestBytes buffer (.ok (result, buffer))

variable {maxRequestBytes : UInt64} {buffer : Buffer}

theorem parseHead_error {headerBlock : Bytes} {result : HttpDecodeResult}
    (h : parseHead headerBlock = .error result) : result.status ≠ .complete := by
  simp only [parseHead] at h
  split at h
  · cases h; simp [badRequest]
  split at h
  · cases h; simp [badRequest]
  split at h
  · cases h; simp [badRequest]
  split at h
  · cases h; simp
  split at h
  · cases h
  split at h
  · cases h; simp [badRequest]
  · cases h

theorem totalLength_toNat {headerEnd : ℕ} {contentLength : UInt64} (hend : headerEnd < 2 ^ 64) :
    (totalLength headerEnd contentLength).toNat =
      (headerEnd + 4 + contentLength.toNat) % 2 ^ 64 := by
  rw [totalLength, UInt64.toNat_add, UInt64.toNat_add, UInt64.toNat_ofNat_of_lt' hend]
  exact Nat.mod_add_mod _ _ _

theorem headerEnd_le {headerEnd : ℕ}
    (hfind : Search.find blankLine buffer.readable = some headerEnd) :
    headerEnd + 4 ≤ buffer.readableBytes := by
  have := Search.length_le_of_find hfind
  rwa [Buffer.length_readable] at this

theorem readableBytes_le (buffer : Buffer) : buffer.readableBytes ≤ buffer.data.length :=
  (Nat.sub_le _ _).trans buffer.writer_le

theorem decodeBuffer_of_head {headerEnd : ℕ} {request : HttpRequest} {contentLength : UInt64}
    (hlimit : buffer.readableBytes ≤ maxRequestBytes.toNat)
    (hfind : Search.find blankLine buffer.readable = some headerEnd)
    (hhead : parseHead (buffer.readable.take headerEnd) = .ok (request, contentLength)) :
    decodeBuffer maxRequestBytes buffer =
      if maxRequestBytes < totalLength headerEnd contentLength then .ok (exceedsLimit, buffer)
      else if buffer.readableBytes < (totalLength headerEnd contentLength).toNat then
        .ok ({ status := .needMoreData }, buffer)
      else (copy [] buffer.readable (headerEnd + 4) contentLength.toNat).bind fun body =>
        .ok ({ status := .complete, request := { request with body } },
          buffer.retrieve (totalLength headerEnd contentLength).toNat) := by
  simp only [decodeBuffer]
  rw [Buffer.length_readable, if_neg (Nat.not_lt.2 hlimit), hfind]
  simp only [hhead]
  rfl

/-- Where the sum does not wrap, the checks are those of the natural numbers. -/
theorem decoded_of_not_wraps (hsize : buffer.data.length ≤ maxSize)
    (h : ¬ Wraps maxRequestBytes buffer) :
    Decoded maxRequestBytes buffer (decodeBuffer maxRequestBytes buffer) := by
  by_cases hlimit : buffer.readableBytes ≤ maxRequestBytes.toNat
  case neg =>
    simp only [decodeBuffer]
    rw [Buffer.length_readable, if_pos (Nat.not_le.1 hlimit)]
    exact .other _ (by simp [exceedsLimit])
  cases hfind : Search.find blankLine buffer.readable with
  | none =>
    simp only [decodeBuffer]
    rw [Buffer.length_readable, if_neg (Nat.not_lt.2 hlimit), hfind]
    exact .other _ (by simp)
  | some headerEnd =>
    cases hhead : parseHead (buffer.readable.take headerEnd) with
    | error result =>
      simp only [decodeBuffer]
      rw [Buffer.length_readable, if_neg (Nat.not_lt.2 hlimit), hfind]
      simp only [hhead]
      exact .other _ (parseHead_error hhead)
    | ok pair =>
      obtain ⟨request, contentLength⟩ := pair
      have hend := headerEnd_le hfind
      have hreadable := readableBytes_le buffer
      have hwrap : headerEnd + 4 + contentLength.toNat < 2 ^ 64 :=
        Nat.not_le.1 fun hwrap =>
          h ⟨hlimit, headerEnd, request, contentLength, hfind, hhead, hwrap⟩
      have htotal := @totalLength_toNat headerEnd contentLength (by omega)
      rw [Nat.mod_eq_of_lt hwrap] at htotal
      rw [decodeBuffer_of_head hlimit hfind hhead]
      split
      · exact .other _ (by simp [exceedsLimit])
      next hle =>
      have hle := UInt64.le_iff_toNat_le.1 (UInt64.not_lt.1 hle)
      split
      · exact .other _ (by simp)
      next henough =>
      rw [htotal] at hle henough ⊢
      have hcopy : copy [] buffer.readable (headerEnd + 4) contentLength.toNat =
          .ok ((buffer.readable.drop (headerEnd + 4)).take contentLength.toNat) := by
        refine copy_eq_ok.2 ⟨?_, ?_, rfl⟩
        · rw [List.length_nil]
          omega
        · simp_all
      rw [hcopy]
      exact .complete headerEnd contentLength request _ hfind hhead (Nat.not_lt.1 henough) hle
        (Buffer.readable_retrieve _ _)

theorem lengthError_of_wraps (hsize : buffer.data.length ≤ maxSize)
    (h : Wraps maxRequestBytes buffer) :
    decodeBuffer maxRequestBytes buffer = .error .lengthError := by
  obtain ⟨hlimit, headerEnd, request, contentLength, hfind, hhead, hwrap⟩ := h
  have hend := headerEnd_le hfind
  have hreadable := readableBytes_le buffer
  have hmax : maxSize = 2 ^ 63 - 1 := rfl
  have hcontent := contentLength.toNat_lt
  have htotal := @totalLength_toNat headerEnd contentLength (by omega)
  have hsmall : (totalLength headerEnd contentLength).toNat < headerEnd + 4 := by omega
  rw [decodeBuffer_of_head hlimit hfind hhead,
    if_neg (UInt64.not_lt.2 (UInt64.le_iff_toNat_le.2 (by omega))), if_neg (by omega)]
  have hcopy : copy [] buffer.readable (headerEnd + 4) contentLength.toNat =
      .error .lengthError := by
    unfold copy
    rw [if_pos (by simp only [List.length_nil]; omega)]
  rw [hcopy]
  rfl

/-- `Decode` keeps to the readable bytes and the limit exactly where the end of the announced body
is a machine number. -/
theorem decoded_iff (maxRequestBytes : UInt64) (buffer : Buffer)
    (hsize : buffer.data.length ≤ maxSize) :
    Decoded maxRequestBytes buffer (decodeBuffer maxRequestBytes buffer) ↔
      ¬ Wraps maxRequestBytes buffer := by
  refine ⟨fun hdecoded hwraps => ?_, decoded_of_not_wraps hsize⟩
  rw [lengthError_of_wraps hsize hwraps] at hdecoded
  cases hdecoded

def requestBuffer (request : Bytes) : Buffer := (Buffer.make 0).append request

theorem decoded_iff_sample :
    Decoded 1024 (requestBuffer (ascii "GET / HTTP/1.1\r\nContent-Length: 2\r\n\r\nabc"))
      (decodeBuffer 1024
        (requestBuffer (ascii "GET / HTTP/1.1\r\nContent-Length: 2\r\n\r\nabc"))) := by
  have hsize : (requestBuffer
      (ascii "GET / HTTP/1.1\r\nContent-Length: 2\r\n\r\nabc")).data.length ≤ maxSize := by
    decide
  refine (decoded_iff 1024 _ hsize).2 fun hwraps => ?_
  obtain ⟨result, hok⟩ : ∃ result, decodeBuffer 1024
      (requestBuffer (ascii "GET / HTTP/1.1\r\nContent-Length: 2\r\n\r\nabc")) = .ok result :=
    ⟨_, rfl⟩
  rw [lengthError_of_wraps hsize hwraps] at hok
  cases hok

def wrappingRequest : Buffer :=
  requestBuffer (ascii "GET / HTTP/1.1\r\nContent-Length: 18446744073709551615\r\n\r\nabc")

theorem wrappingRequest_throws :
    decodeBuffer 1024 wrappingRequest = .error .lengthError ∧
      ¬ Decoded 1024 wrappingRequest (decodeBuffer 1024 wrappingRequest) := by
  have hthrows : decodeBuffer 1024 wrappingRequest = .error .lengthError := rfl
  refine ⟨hthrows, fun hdecoded => ?_⟩
  rw [hthrows] at hdecoded
  cases hdecoded

end TinyImx.Intelligence
