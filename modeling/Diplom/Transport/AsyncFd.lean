import Diplom.Lib.Framing
import Diplom.Transport.EpollLoop
import Mathlib.Algebra.Group.Nat.Defs

/-!
# Asynchronous send and receive

`AsyncFd` moves one message at a time over a descriptor: first the four bytes of its length, then
its body, each by one `ProcData` call whose callback stays registered until its buffer is done. The
callback of the length starts the second `ProcData` call, and the callback of the body resolves the
operation.

A closure is a value here: what it captured, and the `left_size` it changes from event to event.
`RecvOp` and `SendOp` say what one event does to it; the functions on `AsyncFd` add what happens to
its token and to the loop. The user's `resolve` is always the last thing a callback does, so these
functions return its argument and leave the call to the caller.
-/

namespace Diplom

/-! ### The header -/

/-- The order in which a machine keeps the bytes of a `uint32_t`. -/
inductive ByteOrder
  | little
  | big
deriving DecidableEq, Repr

/-- The four bytes of a `uint32_t`, the low one first. -/
def lowFirst (n : Nat) : List Byte :=
  [UInt8.ofNat n, UInt8.ofNat (n / 2 ^ 8), UInt8.ofNat (n / 2 ^ 16), UInt8.ofNat (n / 2 ^ 24)]

def ofLowFirst : List Byte → Nat
  | [a, b, c, d] => a.toNat + 2 ^ 8 * b.toNat + 2 ^ 16 * c.toNat + 2 ^ 24 * d.toNat
  | _ => 0

theorem ofLowFirst_lowFirst (n : Nat) (h : n < 2 ^ 32) : ofLowFirst (lowFirst n) = n := by
  simp only [lowFirst, ofLowFirst, UInt8.toNat_ofNat']
  omega

theorem lowFirst_ofLowFirst (word : List Byte) (h : word.length = 4) :
    lowFirst (ofLowFirst word) = word := by
  match word, h with
  | [a, b, c, d], _ =>
      have ha := a.toNat_lt
      have hb := b.toNat_lt
      have hc := c.toNat_lt
      have hd := d.toNat_lt
      simp only [lowFirst, ofLowFirst, List.cons.injEq, and_true]
      refine ⟨?_, ?_, ?_, ?_⟩ <;> apply UInt8.toNat_inj.mp <;> rw [UInt8.toNat_ofNat'] <;> omega

theorem ofLowFirst_lt (word : List Byte) : ofLowFirst word < 2 ^ 32 := by
  unfold ofLowFirst
  split
  · rename_i a b c d
    have ha := a.toNat_lt
    have hb := b.toNat_lt
    have hc := c.toNat_lt
    have hd := d.toNat_lt
    omega
  · decide

/-- A `uint32_t` as `memcpy` reads and writes it. -/
def uint32 : ByteOrder → LengthCode Byte
  | .little =>
      { width := 4
        bound := 2 ^ 32
        encode := lowFirst
        decode := ofLowFirst
        width_pos := by decide
        length_encode := fun _ => rfl
        decode_encode := ofLowFirst_lowFirst
        encode_decode := lowFirst_ofLowFirst
        decode_lt := ofLowFirst_lt }
  | .big =>
      { width := 4
        bound := 2 ^ 32
        encode := fun n => (lowFirst n).reverse
        decode := fun word => ofLowFirst word.reverse
        width_pos := by decide
        length_encode := fun _ => rfl
        decode_encode := fun n h => by rw [List.reverse_reverse, ofLowFirst_lowFirst n h]
        encode_decode := fun word h => by
          rw [lowFirst_ofLowFirst _ (by simpa using h), List.reverse_reverse]
        decode_lt := fun word => ofLowFirst_lt _ }

@[simp] theorem uint32_width (order : ByteOrder) : (uint32 order).width = 4 := by
  cases order <;> rfl

@[simp] theorem uint32_bound (order : ByteOrder) : (uint32 order).bound = 2 ^ 32 := by
  cases order <;> rfl

/-! ### What an event does to a closure -/

/-- The errors that the callbacks tell apart. -/
inductive Errno
  | eagain
  | other
deriving DecidableEq, Repr

/-- What `recv` returned: the bytes it moved, or `-1`. -/
inductive RecvReturn
  | moved (bytes : List Byte)
  | failed (errno : Errno)
deriving DecidableEq, Repr

/-- The bytes that an event takes from the socket: an error event makes no call. -/
def RecvReturn.bytes (ret : RecvReturn) (res : EpollResult) : List Byte :=
  match res, ret with
  | .ok _, .moved bytes => bytes
  | _, _ => []

/-- What `send` returned: how many bytes it took, or `-1`. -/
inductive SendReturn
  | moved (count : Nat)
  | failed (errno : Errno)
deriving DecidableEq, Repr

/-- How a callback ends: it stays registered, it hands over to the next `ProcData` call, it
resolves, or the process does not survive it (a failed assertion, or a write outside the buffer). -/
inductive Progress (Op Result : Type)
  | waiting (op : Op)
  | next (op : Op)
  | resolved (result : IoResult Result)
  | aborted
deriving DecidableEq, Repr

/-- The buffer of a receiving `ProcData` call and its `left_size`. -/
structure RecvBuf where
  data : List Byte
  left : Nat
deriving DecidableEq, Repr

/-- `recv` writes where `data + (size - left_size)` points. -/
def overwrite (buf : List Byte) (offset : Nat) (bytes : List Byte) : List Byte :=
  buf.take offset ++ bytes ++ buf.drop (offset + bytes.length)

namespace RecvBuf

/-- A buffer of `size` bytes that waits for all of them. -/
def new (size : Nat) : RecvBuf := ⟨List.replicate size 0, size⟩

/-- The bytes received so far. -/
def received (b : RecvBuf) : List Byte := b.data.take (b.data.length - b.left)

/-- The `ProcData` callback of a receiver. -/
def proc (b : RecvBuf) (res : EpollResult) (ret : RecvReturn) : Progress RecvBuf Message :=
  match res with
  | .err e => .resolved (.err e)
  | .ok _ =>
      match ret with
      | .failed .other => .resolved (.err .error)
      -- `length` is -1 and is subtracted all the same
      | .failed .eagain => .waiting { b with left := b.left + 1 }
      | .moved bytes =>
          if bytes.length = 0 ∧ b.left ≠ 0 then .resolved (.err .error)
          -- the pointer lies before the buffer, or the kernel moved more than it was asked for
          else if b.data.length < b.left ∨ b.left < bytes.length then .aborted
          else
            let b : RecvBuf :=
              ⟨overwrite b.data (b.data.length - b.left) bytes, b.left - bytes.length⟩
            if b.left = 0 then .resolved (.ok b.data) else .waiting b

end RecvBuf

/-- The closure of a pending `RecvMessage`. -/
inductive RecvOp
  | length (buf : RecvBuf)
  | body (buf : RecvBuf)
deriving DecidableEq, Repr

namespace RecvOp

def start : RecvOp := .length (.new 4)

/-- One event: `read_data` after the length, the inner `cb` after the body. -/
def event (order : ByteOrder) (op : RecvOp) (res : EpollResult) (ret : RecvReturn) :
    Progress RecvOp Message :=
  match op with
  | .length buf =>
      match buf.proc res ret with
      | .resolved (.ok header) =>
          let msgLen := (uint32 order).decode header
          -- `assert(msg_len > 0)`
          if msgLen = 0 then .aborted else .next (.body (.new msgLen))
      | .resolved (.err e) => .resolved (.err e)
      | .waiting buf => .waiting (.length buf)
      | .next buf => .next (.length buf)
      | .aborted => .aborted
  | .body buf =>
      match buf.proc res ret with
      | .resolved r => .resolved r
      | .waiting buf => .waiting (.body buf)
      | .next buf => .next (.body buf)
      | .aborted => .aborted

end RecvOp

/-- The buffer of a sending `ProcData` call and its `left_size`. -/
structure SendBuf where
  data : List Byte
  left : Nat
deriving DecidableEq, Repr

namespace SendBuf

/-- A buffer of which everything is still to be sent. -/
def new (data : List Byte) : SendBuf := ⟨data, data.length⟩

/-- What `send` is offered: the bytes from `data + (size - left_size)` on. -/
def rest (b : SendBuf) : List Byte := b.data.drop (b.data.length - b.left)

/-- The `ProcData` callback of a sender. Here no errno is told from another. -/
def proc (b : SendBuf) (res : EpollResult) (ret : SendReturn) : Progress SendBuf Unit :=
  match res with
  | .err e => .resolved (.err e)
  | .ok _ =>
      match ret with
      | .failed _ => .resolved (.err .error)
      | .moved count =>
          -- the kernel took more than it was offered
          if b.left < count then .aborted
          else
            let b : SendBuf := ⟨b.data, b.left - count⟩
            if b.left = 0 then .resolved (.ok ()) else .waiting b

end SendBuf

/-- The closure of a pending `SendMessage`. The body waits in `sdata` while the length is sent. -/
inductive SendOp
  | length (buf : SendBuf) (sdata : Message)
  | body (buf : SendBuf)
deriving DecidableEq, Repr

namespace SendOp

/-- `uint32_t msg_len = data.size()`. -/
def msgLen (data : Message) : Nat := data.length % 2 ^ 32

def start (order : ByteOrder) (data : Message) : SendOp :=
  .length (.new ((uint32 order).encode (msgLen data))) data

/-- One event: `send_data` after the length, the inner `cb` after the body. -/
def event (op : SendOp) (res : EpollResult) (ret : SendReturn) : Progress SendOp Unit :=
  match op with
  | .length buf sdata =>
      match buf.proc res ret with
      | .resolved (.ok _) => .next (.body (.new sdata))
      | .resolved (.err e) => .resolved (.err e)
      | .waiting buf => .waiting (.length buf sdata)
      | .next buf => .next (.length buf sdata)
      | .aborted => .aborted
  | .body buf =>
      match buf.proc res ret with
      | .resolved r => .resolved r
      | .waiting buf => .waiting (.body buf)
      | .next buf => .next (.body buf)
      | .aborted => .aborted

/-- What the `send` call of the next event is offered. -/
def offered : SendOp → List Byte
  | .length buf _ => buf.rest
  | .body buf => buf.rest

/-- The bytes that an event puts on the socket: an error event makes no call. -/
def put (op : SendOp) (res : EpollResult) (ret : SendReturn) : List Byte :=
  match res, ret with
  | .ok _, .moved count => op.offered.take count
  | _, _ => []

end SendOp

/-! ### The object -/

/-- The closures that an `AsyncFd` registers. `OnMessage` and `OnSent` are what the user's `resolve`
captured. -/
inductive Closure (OnMessage OnSent : Type)
  | recv (op : RecvOp) (resolve : OnMessage)
  | send (op : SendOp) (resolve : OnSent)

def Closure.dir {OnMessage OnSent : Type} : Closure OnMessage OnSent → IoDirection
  | .recv _ _ => .input
  | .send _ _ => .output

def Closure.asRecv {OnMessage OnSent : Type} :
    Closure OnMessage OnSent → Option (RecvOp × OnMessage)
  | .recv op resolve => some (op, resolve)
  | .send _ _ => none

def Closure.asSend {OnMessage OnSent : Type} : Closure OnMessage OnSent → Option (SendOp × OnSent)
  | .recv _ _ => none
  | .send op resolve => some (op, resolve)

/-- A loop whose callbacks are closures of `AsyncFd` objects. Each closure keeps its own object
alive, so `keepLink` names nothing more. -/
abbrev AsyncLoop (OnMessage OnSent : Type) := EpollLoop (Closure OnMessage OnSent) Unit

/-- The descriptor and the token of the registered operation, `0` if there is none. -/
structure AsyncFd where
  fd : Fd
  token : CancellationToken
deriving DecidableEq, Repr

namespace AsyncFd

variable {OnMessage OnSent Resolve : Type}

/-- `Create`. -/
def create (fd : Fd) : AsyncFd := ⟨fd, 0⟩

/-- What starting or continuing an operation came to. -/
inductive Outcome (Loop Resolve Result : Type)
  /-- The object has an operation already; the call returned false. -/
  | refused
  | pending (afd : AsyncFd) (loop : Loop)
  | resolved (afd : AsyncFd) (loop : Loop) (resolve : Resolve) (result : IoResult Result)
  | aborted

/-- The registration at the end of `ProcData`: a first closure is registered, a later one replaces
it. -/
def procData (a : AsyncFd) (loop : AsyncLoop OnMessage OnSent) (closure : Closure OnMessage OnSent)
    (ok : Bool) : Option (AsyncFd × AsyncLoop OnMessage OnSent) :=
  if a.token = 0 then
    (loop.registerAction a.fd closure.dir closure (some ()) ok).map fun (token, loop) =>
    ({ a with token := token }, loop)
  else
    match loop.replaceAction a.token closure with
    | (true, loop) => some (a, loop)
    | (false, _) => none

/-- `Deregister`. -/
def deregister (a : AsyncFd) (loop : AsyncLoop OnMessage OnSent) (ok : Bool) :
    AsyncFd × AsyncLoop OnMessage OnSent :=
  if a.token = 0 then (a, loop) else ({ a with token := 0 }, (loop.deregisterAction a.token ok).2)

/-- `Release`: the descriptor leaves the object. -/
def release (a : AsyncFd) (loop : AsyncLoop OnMessage OnSent) (ok : Bool) :
    Fd × AsyncFd × AsyncLoop OnMessage OnSent :=
  let (a, loop) := a.deregister loop ok
  (a.fd, { a with fd := -1 }, loop)

/-- `RecvMessage`. A registration that fails resolves before the call returns. -/
def recvMessage (a : AsyncFd) (loop : AsyncLoop OnMessage OnSent) (resolve : OnMessage)
  (ok : Bool) : Outcome (AsyncLoop OnMessage OnSent) OnMessage Message :=
  if a.token ≠ 0 then .refused
  else
    match a.procData loop (.recv .start resolve) ok with
    | some (a, loop) => .pending a loop
    | none => .resolved a loop resolve (.err .error)

/-- `SendMessage`, with its `assert(msg_len > 0)`. -/
def sendMessage (order : ByteOrder) (a : AsyncFd) (loop : AsyncLoop OnMessage OnSent)
    (data : Message) (resolve : OnSent) (ok : Bool) :
    Outcome (AsyncLoop OnMessage OnSent) OnSent Unit :=
  if a.token ≠ 0 then .refused
  else if SendOp.msgLen data = 0 then .aborted
  else
    match a.procData loop (.send (.start order data) resolve) ok with
    | some (a, loop) => .pending a loop
    | none => .resolved a loop resolve (.err .error)

/-- The callback changed what it captured; the loop still holds the same callback object. -/
def keep (a : AsyncFd) (loop : AsyncLoop OnMessage OnSent) (closure : Closure OnMessage OnSent) :
    AsyncLoop OnMessage OnSent :=
  match loop.fdToCallback ⟨a.fd, closure.dir⟩ with
  | some keeper =>
    { loop with fdToCallback :=
      loop.fdToCallback.set ⟨a.fd, closure.dir⟩ { keeper with callback := closure } }
  | none => loop

/-- The rest of a callback run, once the closure has dealt with its event. `ok` answers the
`epoll_ctl` of `Deregister`. -/
def finish {Op Result : Type} (a : AsyncFd) (loop : AsyncLoop OnMessage OnSent)
    (closure : Op → Closure OnMessage OnSent) (resolve : Resolve) (ok : Bool) :
    Progress Op Result → Outcome (AsyncLoop OnMessage OnSent) Resolve Result
  | .waiting op => .pending a (a.keep loop (closure op))
  | .next op =>
      match a.procData loop (closure op) ok with
      | some (a, loop) => .pending a loop
      | none =>
          let (a, loop) := a.deregister loop ok
          .resolved a loop resolve (.err .error)
  | .resolved result =>
      let (a, loop) := a.deregister loop ok
      .resolved a loop resolve result
  | .aborted => .aborted

/-- A run of a receiving callback. -/
def recvEvent (order : ByteOrder) (a : AsyncFd) (loop : AsyncLoop OnMessage OnSent) (op : RecvOp)
    (resolve : OnMessage) (res : EpollResult) (ret : RecvReturn) (ok : Bool) :
    Outcome (AsyncLoop OnMessage OnSent) OnMessage Message :=
  a.finish loop (.recv · resolve) resolve ok (op.event order res ret)

/-- A run of a sending callback. -/
def sendEvent (a : AsyncFd) (loop : AsyncLoop OnMessage OnSent) (op : SendOp) (resolve : OnSent)
    (res : EpollResult) (ret : SendReturn) (ok : Bool) :
    Outcome (AsyncLoop OnMessage OnSent) OnSent Unit :=
  a.finish loop (.send · resolve) resolve ok (op.event res ret)

end AsyncFd

end Diplom
