import Netsim.Foundation.ChunkedMachine
import Netsim.Foundation.Decimal
import Netsim.Foundation.UnorderedMap

/-!
# The HTTP parser

`protocols/http_sim.hpp` and `http_sim.cpp`: a ten-state machine that reads one
byte at a time. A `std::string` is a list of bytes; `size_t` has 64 bits.

`std::stoul` is modelled on a 64-bit `unsigned long`; its two exceptions are
caught by the source, and only success or failure is kept. The two that
`std::vector::reserve` throws, beyond `max_size()` and when there is no memory, are
not caught, so consuming a byte may fail. How much memory can be had at once is a
parameter: the room for a body is the one allocation whose size is announced by the
peer before the bytes are there, and the only one that may fail here.
-/

namespace Netsim.Protocols

open Foundation

abbrev Bytes := List UInt8

/-- `' '`, `'\r'`, `'\n'` and `':'`. -/
def sp : UInt8 := 32
def cr : UInt8 := 13
def lf : UInt8 := 10
def colon : UInt8 := 58

/-- `"Content-Length"`. -/
def contentLengthKey : Bytes := "Content-Length".toUTF8.toList

inductive HttpState where
  | Method
  | Uri
  | Version
  | HeaderKey
  | HeaderValue
  | ExpectValueLF
  | ExpectBodyLF
  | Body
  | Complete
  | Error
deriving DecidableEq, Repr

structure HttpRequest where
  method : Bytes
  uri : Bytes
  version : Bytes
  headers : UnorderedMap Bytes Bytes
  body : Bytes

structure HttpSim where
  state : HttpState
  request : HttpRequest
  currentToken : Bytes
  currentKey : Bytes
  contentLength : UInt64
  bodyBytesRead : UInt64

inductive StdException where
  | lengthError
  | badAlloc
deriving DecidableEq, Repr

/-! ### Library functions -/

/-- `std::isspace` in the C locale. -/
def isSpace (b : UInt8) : Bool := decide (b = 32) || (decide (9 ≤ b) && decide (b ≤ 13))

/-- The optional sign of `std::stoul`'s argument: whether it is a minus, and the
rest. -/
def splitSign : Bytes → Bool × Bytes
  | 45 :: rest => (true, rest)
  | 43 :: rest => (false, rest)
  | str => (false, str)

/-- `std::stoul(str)`: leading white space, an optional sign, and the longest run
of digits; `none` is `std::invalid_argument` or `std::out_of_range`. A minus sign
negates modulo `2^64`. -/
def stoul (str : Bytes) : Option UInt64 :=
  let signed := splitSign (str.dropWhile isSpace)
  let digits := signed.2.takeWhile isDigit
  if digits = [] then none
  else
    let value := decimalValue digits
    if value < 2 ^ 64 then
      some (if signed.1 then 0 - UInt64.ofNat value else UInt64.ofNat value)
    else none

/-- `std::vector<uint8_t>().max_size()`. -/
def maxVectorSize : ℕ := 2 ^ 63 - 1

/-- The number of bytes that can be allocated at once, below what a vector may hold. -/
structure Allocator where
  limit : ℕ
  limit_le : limit ≤ maxVectorSize

/-- An allocator that grants whatever a vector may ask for. -/
def Allocator.unlimited : Allocator := ⟨maxVectorSize, le_rfl⟩

/-- `reserve(n)` on an empty vector of bytes. -/
def reserve (memory : Allocator) (n : ℕ) : Except StdException Unit :=
  if n > maxVectorSize then .error .lengthError
  else if n > memory.limit then .error .badAlloc
  else .ok ()

section Reserve

variable {memory : Allocator} {n : ℕ}

@[simp] theorem reserve_of_le (h : n ≤ memory.limit) : reserve memory n = .ok () := by
  have hmax : n ≤ maxVectorSize := h.trans memory.limit_le
  unfold reserve
  rw [if_neg (not_lt.mpr hmax), if_neg (not_lt.mpr h)]

/-- What cannot be granted is refused, with one exception or the other. -/
theorem exists_reserve_error (h : memory.limit < n) :
    ∃ exception, reserve memory n = .error exception := by
  unfold reserve
  split_ifs
  · exact ⟨_, rfl⟩
  · exact ⟨_, rfl⟩

end Reserve

/-! ### The machine -/

namespace HttpSim

/-- The state after `reset()`, which is also that of a new parser. -/
def fresh : HttpSim where
  state := .Method
  request := ⟨[], [], [], ∅, []⟩
  currentToken := []
  currentKey := []
  contentLength := 0
  bodyBytesRead := 0

def reset (_ : HttpSim) : HttpSim := fresh

def transitionTo (newState : HttpState) (p : HttpSim) : HttpSim := { p with state := newState }

/-- `current_token_ += ch`. -/
def appendToken (ch : UInt8) (p : HttpSim) : HttpSim :=
  { p with currentToken := p.currentToken ++ [ch] }

def clearToken (p : HttpSim) : HttpSim := { p with currentToken := [] }

/-- The end of a header line. A `Content-Length` that `std::stoul` rejects leaves
the tokens as they are. -/
def endHeader (p : HttpSim) : HttpSim :=
  let p := { p with request :=
    { p.request with headers := p.request.headers.set p.currentKey p.currentToken } }
  let done (p : HttpSim) := { p with currentToken := [], currentKey := [], state := .HeaderKey }
  if p.currentKey = contentLengthKey then
    match stoul p.currentToken with
    | some contentLength => done { p with contentLength := contentLength }
    | none => p.transitionTo .Error
  else done p

/-- The body of the loop of `parse_chunk`. -/
def parseByte (memory : Allocator) (p : HttpSim) (ch : UInt8) : Except StdException HttpSim :=
  match p.state with
  | .Method =>
      .ok (if ch = sp then
        { p with request := { p.request with method := p.currentToken },
                 currentToken := [], state := .Uri }
      else p.appendToken ch)
  | .Uri =>
      .ok (if ch = sp then
        { p with request := { p.request with uri := p.currentToken },
                 currentToken := [], state := .Version }
      else p.appendToken ch)
  | .Version =>
      .ok (if ch = cr then p
      else if ch = lf then
        { p with request := { p.request with version := p.currentToken },
                 currentToken := [], state := .HeaderKey }
      else p.appendToken ch)
  | .HeaderKey =>
      -- a line without a colon is dropped with its CR
      .ok (if ch = cr then p.clearToken.transitionTo .ExpectBodyLF
      else if ch = colon then
        { p with currentKey := p.currentToken, currentToken := [], state := .HeaderValue }
      else p.appendToken ch)
  | .HeaderValue =>
      .ok (if ch = sp ∧ p.currentToken = [] then p
      else if ch = cr then p.transitionTo .ExpectValueLF
      else p.appendToken ch)
  | .ExpectValueLF =>
      .ok (if ch = lf then p.endHeader else p.transitionTo .Error)
  | .ExpectBodyLF =>
      if ch = lf then
        if p.contentLength > 0 then
          -- what `body.reserve` throws is thrown on
          (reserve memory p.contentLength.toNat).map fun _ => p.transitionTo .Body
        else .ok (p.transitionTo .Complete)
      else .ok (p.transitionTo .Error)
  | .Body =>
      let p := { p with request := { p.request with body := p.request.body ++ [ch] },
                        bodyBytesRead := p.bodyBytesRead + 1 }
      .ok (if p.bodyBytesRead ≥ p.contentLength then p.transitionTo .Complete else p)
  | .Complete => .ok p
  | .Error => .ok p

/-- Whether a message has been read completely. -/
def isComplete (p : HttpSim) : Bool := decide (p.state = .Complete)

/-- A complete message is not touched by further bytes. -/
theorem parseByte_complete (memory : Allocator) (p : HttpSim) (ch : UInt8)
    (h : p.isComplete = true) : parseByte memory p ch = .ok p := by
  unfold parseByte
  rw [show p.state = .Complete from of_decide_eq_true h]

/-- `HttpSim::parse_chunk`. -/
def parseChunk (memory : Allocator) (p : HttpSim) (chunk : Bytes) :
    Except StdException (Bool × HttpSim) :=
  (consume (parseByte memory) p chunk).map fun p => (p.isComplete, p)

theorem parseChunk_eq (memory : Allocator) (p : HttpSim) (chunk : Bytes) :
    parseChunk memory p chunk =
      (consume (parseByte memory) p chunk).map fun p => (p.isComplete, p) := rfl

end HttpSim

end Netsim.Protocols
