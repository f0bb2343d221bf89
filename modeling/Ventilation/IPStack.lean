/-
# The TCP receive ring (src/IPStack.cpp)

`IPStack` keeps received bytes in a ring of 2048 bytes: lwIP's receive
callback (`tcp_client_recv`) copies what fits behind the stored bytes and
counts the rest as dropped, `read` polls until there is enough or its
timeout has passed and copies out of the front.

A `uint16_t` variable is set through `CInt.unsigned? 16` and an array is
accessed through `Buffer.store` and `Buffer.load`, so that a result `none`
is a wrapped intermediate value or a copy outside an array, and nothing else.
-/
import Ventilation.Lib.Fifo
import Ventilation.Pico

namespace Ventilation

open CInt

abbrev Byte := BitVec 8

/-- A received chain of packet buffers: the payload of each. -/
structure Pbuf where
  payloads : List (List Byte)
  tot_len_lt : payloads.flatten.length < 2 ^ 16

/-- The bytes of the chain, in order. -/
def Pbuf.bytes (p : Pbuf) : List Byte := p.payloads.flatten

/-- The `u16_t` length of the whole chain. -/
def Pbuf.tot_len (p : Pbuf) : ℕ := p.bytes.length

/-- lwIP's copy out of a chain: the bytes it writes to the destination, whose
number it returns. -/
structure Lwip where
  pbuf_copy_partial (p : Pbuf) (len offset : ℕ) : List Byte
  /-- `min len (tot_len - offset)` bytes of the chain, from `offset` on. -/
  pbuf_copy_partial_eq : ∀ p len offset,
    pbuf_copy_partial p len offset = (p.bytes.drop offset).take len

/-- The copy as lwIP documents it. -/
def Lwip.documented : Lwip where
  pbuf_copy_partial p len offset := (p.bytes.drop offset).take len
  pbuf_copy_partial_eq _ _ _ := rfl

namespace IPStack

def BUF_SIZE : ℕ := 2048

instance : NeZero BUF_SIZE := ⟨by decide⟩

end IPStack

open IPStack

/-- The members of `IPStack` that the receive path uses. -/
structure IPStack where
  buffer : Vector Byte BUF_SIZE
  count : ℕ
  dropped : ℕ
  wr : ℕ
  rd : ℕ

namespace IPStack

/-! ### The receive callback -/

section Recv

variable (lw : Lwip)

/-- The copy up to the end of the buffer, if the bytes reach past it. With
the state it hands on `bytes_to_copy`, less what it copied, and `first_copy`. -/
def recvFirst (state : IPStack) (p : Pbuf) (bytes_to_copy wr_end : ℕ) : Option (IPStack × ℕ × ℕ) :=
  if wr_end > BUF_SIZE then do
    let first_copy ← unsigned? 16 (BUF_SIZE - state.wr)
    let (state, bytes_to_copy) ←
      if first_copy ≠ 0 then do
        let src := lw.pbuf_copy_partial p first_copy 0
        let buffer ← Buffer.store state.buffer state.wr src
        let bytes_to_copy ← unsigned? 16 (bytes_to_copy - src.length)
        pure ({ state with buffer, wr := 0 }, bytes_to_copy)
      else pure (state, bytes_to_copy)
    let count ← unsigned? 16 (state.count + first_copy)
    pure ({ state with count }, bytes_to_copy, first_copy)
  else some (state, bytes_to_copy, 0)

/-- The copy of what is left. -/
def recvRest (state : IPStack) (p : Pbuf) (bytes_to_copy first_copy : ℕ) : Option IPStack := do
  let src := lw.pbuf_copy_partial p bytes_to_copy first_copy
  let buffer ← Buffer.store state.buffer state.wr src
  let wr ← unsigned? 16 (state.wr + src.length)
  let count ← unsigned? 16 (state.count + bytes_to_copy)
  pure { state with buffer, wr := wr % BUF_SIZE, count }

/-- `tcp_client_recv`. Beside the state it hands back the number of bytes it
reported through `tcp_recved`: all of the chain, dropped or not. -/
def tcp_client_recv (state : IPStack) : Option Pbuf → Option (IPStack × ℕ)
  | none => some (state, 0)
  | some p =>
    if p.tot_len > 0 then do
      let available ← unsigned? 16 (BUF_SIZE - state.count)
      let bytes_to_copy := if available > p.tot_len then p.tot_len else available
      let wr_end ← unsigned? 16 (state.wr + bytes_to_copy)
      let state :=
        if bytes_to_copy < p.tot_len then
          { state with dropped := toUnsigned 32 (state.dropped + (p.tot_len - bytes_to_copy)) }
        else state
      let (state, bytes_to_copy, first_copy) ← recvFirst lw state p bytes_to_copy wr_end
      let state ← recvRest lw state p bytes_to_copy first_copy
      pure (state, p.tot_len)
    else some (state, 0)

/-- `cyw43_arch_poll`: the callbacks lwIP runs. -/
def cyw43_arch_poll (state : IPStack) (chains : List (Option Pbuf)) : Option IPStack :=
  chains.foldlM (fun state p => (tcp_client_recv lw state p).map (·.1)) state

end Recv

/-! ### Reading -/

/-- What one turn of the polling loop meets: the chains its poll delivers and
the time at which it then looks at the clock. -/
structure Poll where
  chains : List (Option Pbuf)
  now : ℕ

/-- What the polling loop of one `read` with the deadline `t` meets. The
clock passes the deadline some time: at `last`, if the loop gets that far. -/
structure Polls (sdk : PicoTime) (t : ℕ) where
  before : List Poll
  last : Poll
  reached : sdk.time_reached last.now t = true

/-- The polling loop of `read`. -/
def pollLoop (sdk : PicoTime) (lw : Lwip) (len t : ℕ) : IPStack → List Poll → Poll → Option IPStack
  | state, [], last => state.cyw43_arch_poll lw last.chains
  | state, p :: ps, last => do
    let state ← state.cyw43_arch_poll lw p.chains
    if state.count < len ∧ sdk.time_reached p.now t = false then pollLoop sdk lw len t state ps last
    else pure state

/-- The copy in two parts, when the bytes reach past the end of the buffer. -/
def copyWrapped {len : ℕ} (state : IPStack) (out : Vector Byte len) (bytes_to_copy : ℤ) :
    Option (IPStack × Vector Byte len × ℤ × ℕ) := do
  let first_copy ← unsigned? 16 (BUF_SIZE - state.rd)
  let (state, out, bytes_to_copy) ←
    if first_copy ≠ 0 then do
      let src ← Buffer.load state.buffer state.rd first_copy
      let out ← Buffer.store out 0 src
      let count ← unsigned? 16 (state.count - first_copy)
      pure ({ state with count }, out, bytes_to_copy - first_copy)
    else pure (state, out, bytes_to_copy)
  let src ← Buffer.load state.buffer 0 (← size? bytes_to_copy)
  let out ← Buffer.store out first_copy src
  let rd ← unsigned? 16 bytes_to_copy
  pure ({ state with rd }, out, bytes_to_copy, first_copy)

/-- The copy in one part. -/
def copyStraight {len : ℕ} (state : IPStack) (out : Vector Byte len) (bytes_to_copy : ℤ) :
    Option (IPStack × Vector Byte len × ℤ × ℕ) := do
  let src ← Buffer.load state.buffer state.rd (← size? bytes_to_copy)
  let out ← Buffer.store out 0 src
  let rd ← unsigned? 16 ((state.rd + bytes_to_copy) % BUF_SIZE)
  pure ({ state with rd }, out, bytes_to_copy, 0)

/-- The copy, in two parts or in one. -/
def copyOut {len : ℕ} (state : IPStack) (out : Vector Byte len) (bytes_to_copy : ℤ) (rd_end : ℕ) :
    Option (IPStack × Vector Byte len × ℤ × ℕ) :=
  if rd_end > BUF_SIZE then copyWrapped state out bytes_to_copy
  else copyStraight state out bytes_to_copy

/-- `read` behind its polling loop: the state, the caller's `len` bytes and
the number returned. -/
def readCopy {len : ℕ} (state : IPStack) (out : Vector Byte len) :
    Option (IPStack × Vector Byte len × ℤ) := do
  let bytes_to_copy : ℤ := if state.count < len then state.count else len
  if bytes_to_copy ≠ 0 then do
    let rd_end ← unsigned? 16 (state.rd + bytes_to_copy)
    let (state, out, bytes_to_copy, first_copy) ← copyOut state out bytes_to_copy rd_end
    let count ← unsigned? 16 (state.count - bytes_to_copy)
    pure ({ state with count }, out, bytes_to_copy + first_copy)
  else pure (state, out, bytes_to_copy)

/-- The deadline `read` computes from its `int` timeout when called at `now`. -/
def readDeadline (sdk : PicoTime) (now : ℕ) (timeout : ℤ) : ℕ :=
  sdk.make_timeout_time_ms now (toUnsigned 32 timeout)

/-- `read` into the caller's `out`, called at `now`. -/
def read (sdk : PicoTime) (lw : Lwip) {len : ℕ} (state : IPStack) (out : Vector Byte len)
    (timeout : ℤ) (now : ℕ) (polls : Polls sdk (readDeadline sdk now timeout)) :
    Option (IPStack × Vector Byte len × ℤ) := do
  let state ← pollLoop sdk lw len (readDeadline sdk now timeout) state polls.before polls.last
  readCopy state out

end IPStack
end Ventilation
