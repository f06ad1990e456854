import Pigeon.CSession

/-!
The transports under a stream: the loopback of the C library (`loopback.c`), its
QUIC transport (`ngtcp2_transport.c`) and the stream that the Go session reads
and writes (`webtransport.go`). Each carries whole messages of at most 1 MiB in
order. `Transport` says so: its fields are the two functions that a stream calls
and the facts about them that the streams above rely on.
-/
namespace Pigeon.Transports
open Octets Framing
open CSession (pigeonMaxMsg)

theorem maxMessageSize_eq : maxMessageSize = pigeonMaxMsg := rfl

structure Transport where
  State : Type
  idle : State
  /-- `send_on_stream`, and whether it takes the message. -/
  sendOnStream : State → Bytes → State × Bool
  /-- `recv_on_stream` into a buffer, or a failure. -/
  recvOnStream : State → Nat → State × Option Bytes
  /-- Whether a further message is taken when so many are under way. -/
  room : Nat → Bool
  /-- The messages that are under way, in order. -/
  Carries : State → List Bytes → Prop
  room_idle : room 0 = true
  carries_idle : Carries idle []
  send_taken : ∀ {w ms data}, Carries w ms → data.length ≤ pigeonMaxMsg → room ms.length = true →
    ∃ w', sendOnStream w data = (w',true) ∧ Carries w' (ms ++ [data])
  send_refused : ∀ {w ms data}, Carries w ms → (pigeonMaxMsg < data.length ∨ room ms.length = false) →
    sendOnStream w data = (w,false)
  recv_next : ∀ {w data rest bufLen}, Carries w (data :: rest) → data.length ≤ bufLen →
    ∃ w', recvOnStream w bufLen = (w',some data) ∧ Carries w' rest
  recv_empty : ∀ {w bufLen}, Carries w [] → recvOnStream w bufLen = (w,none)

def loopMaxPending : Nat := 64

/-- `lb_send_on_stream`. -/
def lbSendOnStream (msgs : List Bytes) (data : Bytes) : List Bytes × Bool :=
  if loopMaxPending ≤ msgs.length then (msgs,false)
  else if pigeonMaxMsg < data.length then (msgs,false)
  else (msgs ++ [data],true)

/-- `lb_recv_on_stream`. -/
def lbRecvOnStream (msgs : List Bytes) (bufLen : Nat) : List Bytes × Option Bytes :=
  match msgs with
  | [] => ([],none)
  | data :: rest => if bufLen < data.length then (data :: rest,none) else (rest,some data)

def loopback : Transport where
  State := List Bytes
  idle := []
  sendOnStream := lbSendOnStream
  recvOnStream := lbRecvOnStream
  room n := decide (n < loopMaxPending)
  Carries w ms := w = ms
  room_idle := rfl
  carries_idle := rfl
  send_taken := by
    rintro w ms data rfl small free
    have below : ¬ loopMaxPending ≤ w.length := by simpa using free
    refine ⟨w ++ [data],?_,rfl⟩
    rw [lbSendOnStream,if_neg below,if_neg (by omega)]
  send_refused := by
    rintro w ms data rfl refused
    by_cases full : loopMaxPending ≤ w.length
    · rw [lbSendOnStream,if_pos full]
    · have large : pigeonMaxMsg < data.length := by simpa [full] using refused
      rw [lbSendOnStream,if_neg full,if_pos large]
  recv_next := by
    rintro w data rest bufLen rfl fits
    exact ⟨rest,by rw [lbRecvOnStream,if_neg (by omega)],rfl⟩
  recv_empty := by
    rintro w bufLen rfl
    rfl

def Framed (octets : Bytes) (ms : List Bytes) : Prop :=
  octets = ms.flatMap frame ∧ ∀ data ∈ ms, data.length ≤ pigeonMaxMsg

variable {octets data : Bytes}

theorem framed_append {ms} (framed : Framed octets ms)
    (small : data.length ≤ pigeonMaxMsg) : Framed (octets ++ frame data) (ms ++ [data]) := by
  refine ⟨by simp [framed.1],?_⟩
  exact Sequence.forall_mem_snoc.mpr ⟨framed.2,small⟩

theorem framed_nil : Framed [] [] := by
  refine ⟨rfl,?_⟩
  intro data impossible
  cases impossible

variable {rest : List Bytes}

theorem framed_head (framed : Framed octets (data :: rest)) :
    data.length ≤ maxMessageSize := framed.2 data List.mem_cons_self

theorem framed_read (framed : Framed octets (data :: rest)) :
    readMessage octets = (rest.flatMap frame,some data) ∧ Framed (rest.flatMap frame) rest := by
  refine ⟨?_,rfl,fun other mem => framed.2 other (List.mem_cons_of_mem _ mem)⟩
  rw [framed.1,List.flatMap_cons]
  exact readMessage_frame (framed_head framed) _

/-- `raw_send_on_stream`. -/
def rawSendOnStream (octets data : Bytes) : Bytes × Bool :=
  if pigeonMaxMsg < data.length then (octets,false) else (octets ++ frame data,true)

/-- `raw_recv_on_stream`. The length is read first and stays read when the message turns out too long for the
    buffer. -/
def rawRecvOnStream (octets : Bytes) (bufLen : Nat) : Bytes × Option Bytes :=
  if octets.length < 4 then ([],none)
  else if pigeonMaxMsg < ofBe (octets.take 4) then (octets.drop 4,none)
  else if bufLen < ofBe (octets.take 4) then (octets.drop 4,none)
  else if (octets.drop 4).length < ofBe (octets.take 4) then ([],none)
  else ((octets.drop 4).drop (ofBe (octets.take 4)),some ((octets.drop 4).take (ofBe (octets.take 4))))

theorem rawRecvOnStream_eq {bufLen} (fits : ofBe (octets.take 4) ≤ bufLen) :
    rawRecvOnStream octets bufLen = readMessage octets := by
  have enough : ¬ bufLen < ofBe (octets.take 4) := by omega
  simp only [rawRecvOnStream,readMessage,enough,if_false]
  rfl

/-- The C transport as a pipe without bound: the receive ring of 64 KiB, and a send that waits half-way for room, are
    left out. -/
def ngtcp2 : Transport where
  State := Bytes
  idle := []
  sendOnStream := rawSendOnStream
  recvOnStream := rawRecvOnStream
  room _ := true
  Carries := Framed
  room_idle := rfl
  carries_idle := framed_nil
  send_taken := by
    intro w ms data framed small _
    exact ⟨w ++ frame data,by rw [rawSendOnStream,if_neg (by omega)],framed_append framed small⟩
  send_refused := by
    intro w ms data _ refused
    have large : pigeonMaxMsg < data.length := by simpa using refused
    rw [rawSendOnStream,if_pos large]
  recv_next := by
    intro w data rest bufLen framed fits
    obtain ⟨read,later⟩ := framed_read framed
    refine ⟨rest.flatMap frame,?_,later⟩
    rw [rawRecvOnStream_eq (by rw [framed.1,List.flatMap_cons,ofBe_frame (framed_head framed)]; exact fits)]
    exact read
  recv_empty := by
    intro w bufLen framed
    rw [framed.1]
    rfl

/-- The stream that `writeMessage` and `readMessage` work on; `readMessage` makes a buffer of the length it reads. -/
def goStream : Transport where
  State := Bytes
  idle := []
  sendOnStream octets data :=
    match writeMessage data with
    | none => (octets,false)
    | some written => (octets ++ written,true)
  recvOnStream octets _ := readMessage octets
  room _ := true
  Carries := Framed
  room_idle := rfl
  carries_idle := framed_nil
  send_taken := by
    intro w ms data framed small _
    have written : writeMessage data = some (frame data) := writeMessage_eq_some.mpr ⟨small,rfl⟩
    exact ⟨w ++ frame data,by rw [written],framed_append framed small⟩
  send_refused := by
    intro w ms data _ refused
    have large : pigeonMaxMsg < data.length := by simpa using refused
    rw [writeMessage,if_pos (by rw [maxMessageSize_eq]; exact large)]
  recv_next := by
    intro w data rest bufLen framed _
    obtain ⟨read,later⟩ := framed_read framed
    exact ⟨rest.flatMap frame,read,later⟩
  recv_empty := by
    intro w bufLen framed
    rw [framed.1]
    rfl

end Pigeon.Transports
