import Pigeon.Delivery

/-!
Calls of `Stream.Recv` on one Go stream (`api.go`), each with a goroutine that reads in pieces
and is left behind when the call's context ends. As long as a call starts only when the earlier
goroutines have ended, and one left behind reads no more, the messages returned are a prefix of
those sent and no cancelled call has taken one (`recv_returns_in_order`); otherwise a message is
lost (`cancelled_recv_loses`).
-/
namespace Pigeon.RecvOrder
open Octets Runs Sequence Sealing Crypto Framing Delivery List
open GoSession (cwireEncrypt cwireDecrypt cwireEncrypt_state cwireEncrypt_result)

/-- It reads the header, or a payload of that length, has read a message, or has ended. -/
inductive Phase
  | header (got : Bytes)
  | payload (length : Nat) (got : Bytes)
  | sealed (raw : Bytes)
  | ended (result : Option Bytes)

inductive Outcome
  | message (msg : Bytes)
  | error
  | cancelled
deriving DecidableEq

structure Call where
  phase : Phase
  answer : Option Outcome

/-- A stream between a sender and the calls of its receiver, in pairing mode without channels. `octets` are written
    and not read; `sent` and `returned` keep the messages. -/
structure State where
  (sender channel : Option Channel)
  octets : Bytes
  broken : Bool
  calls : List Call
  (sent returned : List Bytes)

inductive Event
  | send (msg : Bytes)
  | start
  /-- A `Read` of a goroutine returns `n` octets. -/
  | read (i n : Nat)
  /-- A `Read` of a goroutine returns an error, and so will all later ones. -/
  | fail (i : Nat)
  | decrypt (i : Nat)
  /-- The call takes the result of its goroutine. -/
  | finish (i : Nat)
  /-- The call takes the end of its context. -/
  | cancel (i : Nat)

def afterHeader (length : Nat) : Phase :=
  if maxMessageSize < length then .ended none
  else if length = 0 then .sealed []
  else .payload length []

def Phase.read (piece : Bytes) : Phase → Option Phase
  | .header got =>
    if 4 < (got ++ piece).length then none
    else if (got ++ piece).length = 4 then some (afterHeader (ofBe (got ++ piece)))
    else some (.header (got ++ piece))
  | .payload length got =>
    if length < (got ++ piece).length then none
    else if (got ++ piece).length = length then some (.sealed (got ++ piece))
    else some (.payload length (got ++ piece))
  | .sealed _ => none
  | .ended _ => none

def Phase.reading : Phase → Bool
  | .header _ => true
  | .payload _ _ => true
  | .sealed _ => false
  | .ended _ => false

section
variable (aead : Aead)

def peerSend (s : State) (msg : Bytes) : State :=
  match s.sender with
  | none =>
    match writeMessage msg with
    | none => s
    | some octets => { s with octets := s.octets ++ octets, sent := s.sent ++ [msg] }
  | some ch =>
    match (cwireEncrypt aead ch msg).2.bind writeMessage with
    | none => { s with sender := some (cwireEncrypt aead ch msg).1 }
    | some octets =>
      { s with sender := some (cwireEncrypt aead ch msg).1, octets := s.octets ++ octets, sent := s.sent ++ [msg] }

def decryptRaw (s : State) (raw : Bytes) : Option Channel × Option Bytes :=
  match s.channel with
  | none => (none,some raw)
  | some ch => (some (cwireDecrypt aead ch raw).1,(cwireDecrypt aead ch raw).2)

/-- The steps are those of `Stream.Recv`. -/
def step (s : State) : Event → State × Option Outcome
  | .send msg => (peerSend aead s msg,none)
  | .start => ({ s with calls := s.calls ++ [⟨.header [],none⟩] },none)
  | .read i n =>
    match s.calls[i]? with
    | none => (s,none)
    | some call =>
      if s.broken ∨ n = 0 ∨ s.octets.length < n then (s,none)
      else
        match call.phase.read (s.octets.take n) with
        | none => (s,none)
        | some phase => ({ s with octets := s.octets.drop n, calls := s.calls.set i { call with phase := phase } },none)
  | .fail i =>
    match s.calls[i]? with
    | none => (s,none)
    | some call =>
      if call.phase.reading then
        ({ s with broken := true, calls := s.calls.set i { call with phase := .ended none } },none)
      else (s,none)
  | .decrypt i =>
    match s.calls[i]? with
    | some ⟨.sealed raw,answer⟩ =>
      ({ s with
          channel := (decryptRaw aead s raw).1
          calls := s.calls.set i ⟨.ended (decryptRaw aead s raw).2,answer⟩ },none)
    | _ => (s,none)
  | .finish i =>
    match s.calls[i]? with
    | some ⟨.ended none,none⟩ => ({ s with calls := s.calls.set i ⟨.ended none,some .error⟩ },some .error)
    | some ⟨.ended (some msg),none⟩ =>
      ({ s with calls := s.calls.set i ⟨.ended (some msg),some (.message msg)⟩, returned := s.returned ++ [msg] },
        some (.message msg))
    | _ => (s,none)
  | .cancel i =>
    match s.calls[i]? with
    | some ⟨phase,none⟩ => ({ s with calls := s.calls.set i ⟨phase,some .cancelled⟩ },some .cancelled)
    | _ => (s,none)

end

def fresh (keys : Option (Key × Key)) : State where
  sender := keys.map (fun k => channelInit k.1 k.2 .strict)
  channel := keys.map (fun k => channelInit k.2 k.1 .strict)
  octets := []
  broken := false
  calls := []
  sent := []
  returned := []

def Call.settled : Call → Bool
  | ⟨.ended none,_⟩ => true
  | ⟨.ended (some _),some (.message _)⟩ => true
  | _ => false

/-- Whether the goroutine has read a whole message off the stream. -/
def Phase.took : Phase → Bool
  | .sealed _ | .ended (some _) => true
  | .header _ | .payload _ _ | .ended none => false

/-- A call starts when the earlier ones have settled, is not cancelled once its goroutine has a message, and leaves
    none behind that reads on. -/
def Orderly (s : State) : Event → Prop
  | .send msg => s.sender.isSome = true → msg.length + 24 ≤ maxMessageSize
  | .start => ∀ call ∈ s.calls, call.settled = true
  | .read i _ => ∀ call ∈ s.calls[i]?, call.answer ≠ some .cancelled
  | .cancel i => ∀ call ∈ s.calls[i]?, call.phase.took = false
  | .fail _ | .decrypt _ | .finish _ => True

instance (s : State) : (e : Event) → Decidable (Orderly s e)
  | .send _ => inferInstanceAs (Decidable (_ → _))
  | .start => inferInstanceAs (Decidable (∀ call ∈ s.calls, _))
  | .read i _ | .cancel i => inferInstanceAs (Decidable (∀ call ∈ s.calls[i]?, _))
  | .fail _ | .decrypt _ | .finish _ => isTrue trivial

def current (s : State) : Call := s.calls.getLast?.getD ⟨.ended none,some .error⟩

def Call.holding : Call → List Bytes
  | ⟨.ended (some _),some (.message _)⟩ => []
  | ⟨.ended (some msg),_⟩ => [msg]
  | _ => []

def Fed (payload : UInt64 × Bytes → Bytes) (items : List (UInt64 × Bytes)) (octets : Bytes) (broken : Bool) : Phase → Prop
  | .header got => got.length < 4 ∧ (broken = false → got ++ octets = (items.map payload).flatMap frame)
  | .payload length got => got.length < length ∧ (broken = false → ∃ item rest, items = item :: rest ∧
      length = (payload item).length ∧ got ++ octets = payload item ++ (rest.map payload).flatMap frame)
  | .sealed raw => ∃ item rest, items = item :: rest ∧ raw = payload item ∧
      (broken = false → octets = (rest.map payload).flatMap frame)
  | .ended _ => broken = false → octets = (items.map payload).flatMap frame

variable {i : Nat} {phase : Phase} {payload : UInt64 × Bytes → Bytes} {call : Call}

section
variable {aead : Aead} {s : State} {items : List (UInt64 × Bytes)}

def payloadOf (aead : Aead) (channel : Option Channel) (item : UInt64 × Bytes) : Bytes :=
  match channel with
  | none => item.2
  | some ch => packet aead ch.recvKey item.1 item.2

def Counted (sender channel : Option Channel) (items : List (UInt64 × Bytes)) : Prop :=
  match sender, channel with
  | none, none => True
  | some tx, some rx => tx.sendKey = rx.recvKey ∧ rx.mode = .strict ∧
      CountsFrom (· + 1) rx.recvSeq (items.map Prod.fst) ∧ tx.sendSeq = rx.recvSeq + UInt64.ofNat items.length
  | _, _ => False

/-- With `items` due, the messages sent are those returned, the one that the last call holds, and the ones due. -/
structure Ordered (aead : Aead) (items : List (UInt64 × Bytes)) (s : State) : Prop where
  counted : Counted s.sender s.channel items
  small : ∀ item ∈ items, (payloadOf aead s.channel item).length ≤ maxMessageSize
  fed : Fed (payloadOf aead s.channel) items s.octets s.broken (current s).phase
  sent : s.sent = s.returned ++ (current s).holding ++ items.map Prod.snd
  settled : ∀ j call, s.calls[j]? = some call → j + 1 < s.calls.length → call.settled = true
  answered : ∀ call ∈ s.calls, ∀ msg, call.answer = some (.message msg) → call.settled = true

theorem ordered_fresh (keys : Option (Key × Key)) : Ordered aead [] (fresh keys) := by
  refine ⟨?_,?_,?_,rfl,?_,?_⟩
  · cases keys with
    | none => trivial
    | some pair => exact ⟨rfl,rfl,trivial,rfl⟩
  · simp
  · intro _
    rfl
  · simp [fresh]
  · simp [fresh]

theorem settled_phase (settled : call.settled) : ∃ result, call.phase = .ended result := by
  obtain ⟨phase,answer⟩ := call
  cases phase with
  | ended result => exact ⟨result,rfl⟩
  | _ => cases settled

theorem settled_holding (settled : call.settled) : call.holding = [] := by
  obtain ⟨phase,answer⟩ := call
  cases phase with
  | ended result =>
    cases result with
    | none => cases answer <;> rfl
    | some msg =>
      cases answer with
      | none => cases settled
      | some outcome =>
        cases outcome with
        | message got => rfl
        | _ => cases settled
  | _ => cases settled

theorem current_eq (here : s.calls[i]? = some call) (last : i + 1 = s.calls.length) : current s = call := by
  have index : i = s.calls.length - 1 := by omega
  rw [current,getLast?_eq_getElem?,← index,here]
  rfl

theorem last_of_unsettled (ordered : Ordered aead items s) (here : s.calls[i]? = some call)
    (unsettled : call.settled = false) : i + 1 = s.calls.length := by
  have inside := lt_of_getElem? here
  by_contra other
  have settled := ordered.settled i call here (by omega)
  rw [unsettled] at settled
  cases settled

theorem current_set {t} (last : i + 1 = s.calls.length) (calls : t.calls = s.calls.set i call) :
    current t = call := by
  have inside : i < s.calls.length := by omega
  refine current_eq (i := i) ?_ ?_
  · rw [calls]
    exact getElem?_set_self inside
  · rw [calls,length_set]
    exact last

theorem current_set_other {t} (other : i + 1 ≠ s.calls.length) (inside : i < s.calls.length)
    (calls : t.calls = s.calls.set i call) : current t = current s := by
  have apart : i ≠ s.calls.length - 1 := by omega
  rw [current,current,calls,getLast?_eq_getElem?,length_set,getElem?_set_ne apart,← getLast?_eq_getElem?]

theorem answered_set (answered : ∀ call ∈ s.calls, ∀ msg, call.answer = some (.message msg) → call.settled)
    (new : ∀ msg, call.answer = some (.message msg) → call.settled) (other : Call) (mem : other ∈ s.calls.set i call)
    (msg : Bytes) (answer : other.answer = some (.message msg)) : other.settled := by
  rcases mem_or_eq_of_mem_set mem with old | rfl
  · exact answered other old msg answer
  · exact new msg answer

theorem ordered_last {t items'} (ordered : Ordered aead items s) (last : i + 1 = s.calls.length)
    (calls : t.calls = s.calls.set i call) (counted : Counted t.sender t.channel items')
    (small : ∀ item ∈ items', (payloadOf aead t.channel item).length ≤ maxMessageSize)
    (fed : Fed (payloadOf aead t.channel) items' t.octets t.broken call.phase)
    (sent : t.sent = t.returned ++ call.holding ++ items'.map Prod.snd)
    (new : ∀ msg, call.answer = some (.message msg) → call.settled) : Ordered aead items' t := by
  refine ⟨counted,small,?_,?_,?_,?_⟩
  · rw [current_set last calls]
    exact fed
  · rw [current_set last calls]
    exact sent
  · intro j other found before
    rw [calls,length_set] at before
    rw [calls,getElem?_set_ne (by omega)] at found
    exact ordered.settled j other found before
  · rw [calls]
    exact answered_set ordered.answered new

theorem holding_answer {outcome} (other : ∀ msg, outcome ≠ .message msg) :
    (Call.mk phase (some outcome)).holding = (Call.mk phase none).holding := by
  cases phase with
  | ended result =>
    cases result with
    | none => rfl
    | some msg =>
      cases outcome with
      | message got => exact absurd rfl (other got)
      | _ => rfl
  | _ => rfl

theorem settled_answer (outcome : Outcome) (settled : (Call.mk phase none).settled) :
    (Call.mk phase (some outcome)).settled := by
  cases phase with
  | ended result =>
    cases result with
    | none => rfl
    | some msg => cases settled
  | _ => cases settled

theorem ordered_answer (ordered : Ordered aead items s) {outcome} (here : s.calls[i]? = some ⟨phase,none⟩)
    (other : ∀ msg, outcome ≠ .message msg) :
    Ordered aead items { s with calls := s.calls.set i ⟨phase,some outcome⟩ } := by
  have inside := lt_of_getElem? here
  have new : ∀ msg, (Call.mk phase (some outcome)).answer = some (.message msg) →
      (Call.mk phase (some outcome)).settled = true := by
    intro msg answer
    exact absurd (Option.some.inj answer) (other msg)
  by_cases last : i + 1 = s.calls.length
  · have same := current_eq here last
    refine ordered_last ordered last rfl ordered.counted ordered.small ?_ ?_ new
    · have fed := ordered.fed
      rw [same] at fed
      exact fed
    · rw [holding_answer other,← same]
      exact ordered.sent
  · have same : current { s with calls := s.calls.set i ⟨phase,some outcome⟩ } = current s :=
      current_set_other last inside rfl
    refine ⟨ordered.counted,ordered.small,?_,?_,?_,answered_set ordered.answered new⟩
    · rw [same]
      exact ordered.fed
    · rw [same]
      exact ordered.sent
    · intro j call found before
      rw [length_set] at before
      rcases getElem?_set_cases found with ⟨rfl,rfl⟩ | ⟨-,old⟩
      · exact settled_answer outcome (ordered.settled j _ here before)
      · exact ordered.settled j call old before

theorem fed_append {octets broken} (fed : Fed payload items octets broken phase) (item : UInt64 × Bytes) :
    Fed payload (items ++ [item]) (octets ++ frame (payload item)) broken phase := by
  cases phase with
  | header got =>
    refine ⟨fed.1,fun whole => ?_⟩
    rw [← append_assoc,fed.2 whole]
    simp
  | payload length got =>
    refine ⟨fed.1,fun whole => ?_⟩
    obtain ⟨first,rest,rfl,size,split⟩ := fed.2 whole
    refine ⟨first,rest ++ [item],rfl,size,?_⟩
    rw [← append_assoc,split]
    simp
  | sealed raw =>
    obtain ⟨first,rest,rfl,same,later⟩ := fed
    refine ⟨first,rest ++ [item],rfl,same,fun whole => ?_⟩
    rw [later whole]
    simp
  | ended result =>
    intro whole
    rw [fed whole]
    simp

theorem frame_split {data piece left rest} (small : data.length ≤ maxMessageSize) (four : piece.length = 4)
    (split : piece ++ left = frame data ++ rest) : ofBe piece = data.length ∧ left = data ++ rest := by
  have front : piece = (frame data ++ rest).take 4 := by rw [← split,← four,take_left]
  have back : left = (frame data ++ rest).drop 4 := by rw [← split,← four,drop_left]
  constructor
  · rw [front]
    exact ofBe_frame small rest
  · have header : (be 4 data.length).length = 4 := by simp
    rw [back,frame,append_assoc]
    exact drop_left' header

theorem fed_header {piece left} (small : ∀ item ∈ items, (payload item).length ≤ maxMessageSize)
    (four : piece.length = 4) (split : piece ++ left = (items.map payload).flatMap frame) :
    Fed payload items left false (afterHeader (ofBe piece)) := by
  cases items with
  | nil =>
    have length := congrArg length split
    simp [four] at length
  | cons item rest =>
    rw [map_cons,flatMap_cons] at split
    have within := small item mem_cons_self
    obtain ⟨length,next⟩ := frame_split within four split
    rw [length,afterHeader,if_neg (Nat.not_lt.mpr within)]
    by_cases empty : (payload item).length = 0
    · rw [if_pos empty]
      have nothing := length_eq_zero_iff.mp empty
      exact ⟨item,rest,rfl,nothing.symm,fun _ => by rw [next,nothing,nil_append]⟩
    · rw [if_neg empty]
      exact ⟨Nat.pos_of_ne_zero empty,fun _ => ⟨item,rest,rfl,rfl,next⟩⟩

theorem fed_read {octets n phase'}
    (small : ∀ item ∈ items, (payload item).length ≤ maxMessageSize) (fed : Fed payload items octets false phase)
    (read : phase.read (octets.take n) = some phase') : Fed payload items (octets.drop n) false phase' := by
  cases phase with
  | header got =>
    have split : got ++ octets.take n ++ octets.drop n = (items.map payload).flatMap frame := by
      rw [append_assoc,take_append_drop]
      exact fed.2 rfl
    simp only [Phase.read] at read
    split at read
    · cases read
    · split at read
      · rename_i four
        cases read
        exact fed_header small four split
      · cases read
        exact ⟨by omega,fun _ => split⟩
  | payload length got =>
    obtain ⟨item,rest,rfl,size,whole⟩ := fed.2 rfl
    have split : got ++ octets.take n ++ octets.drop n = payload item ++ (rest.map payload).flatMap frame := by
      rw [append_assoc,take_append_drop]
      exact whole
    simp only [Phase.read] at read
    split at read
    · cases read
    · split at read
      · rename_i full
        cases read
        obtain ⟨same,left⟩ := append_inj split (full.trans size)
        exact ⟨item,rest,rfl,same,fun _ => left⟩
      · cases read
        exact ⟨by omega,fun _ => ⟨item,rest,rfl,size,split⟩⟩
  | sealed | ended => cases read

theorem read_reading {phase' piece} (read : phase.read piece = some phase') :
    phase.reading ∧ ∀ answer, (Call.mk phase' answer).holding = [] := by
  have header : ∀ length answer, (Call.mk (afterHeader length) answer).holding = [] := by
    intro length answer
    unfold afterHeader
    split
    · rfl
    · split <;> rfl
  cases phase with
  | header got =>
    refine ⟨rfl,fun answer => ?_⟩
    simp only [Phase.read] at read
    split at read
    · cases read
    · split at read
      · cases read
        exact header _ answer
      · cases read
        rfl
  | payload length got =>
    refine ⟨rfl,fun answer => ?_⟩
    simp only [Phase.read] at read
    split at read
    · cases read
    · split at read <;> cases read <;> rfl
  | sealed | ended => cases read

section
variable (ordered : Ordered aead items s)
include ordered

theorem running_last (here : s.calls[i]? = some call) (running : ∀ result, call.phase ≠ .ended result) :
    i + 1 = s.calls.length ∧ current s = call ∧ call.holding = [] ∧ ∀ msg, call.answer ≠ some (.message msg) := by
  have unsettled : call.settled = false := by
    cases settled : call.settled with
    | false => rfl
    | true =>
      obtain ⟨result,ended⟩ := settled_phase settled
      exact absurd ended (running result)
  have last := last_of_unsettled ordered here unsettled
  refine ⟨last,current_eq here last,?_,?_⟩
  · obtain ⟨phase,answer⟩ := call
    cases phase with
    | ended result => exact absurd rfl (running result)
    | _ => rfl
  · intro msg answer
    have settled := ordered.answered call (mem_of_getElem? here) msg answer
    rw [unsettled] at settled
    cases settled

theorem ordered_due {t item} (channel : t.channel = s.channel)
    (broken : t.broken = s.broken) (calls : t.calls = s.calls) (returned : t.returned = s.returned)
    (octets : t.octets = s.octets ++ frame (payloadOf aead s.channel item)) (sent : t.sent = s.sent ++ [item.2])
    (small : (payloadOf aead s.channel item).length ≤ maxMessageSize)
    (counted : Counted t.sender s.channel (items ++ [item])) : Ordered aead (items ++ [item]) t := by
  have same : current t = current s := by rw [current,current,calls]
  refine ⟨?_,?_,?_,?_,?_,?_⟩
  · rw [channel]
    exact counted
  · rw [channel]
    exact forall_mem_snoc.mpr ⟨ordered.small,small⟩
  · rw [same,channel,broken,octets]
    exact fed_append ordered.fed item
  · rw [same,sent,returned,ordered.sent]
    simp
  · rw [calls]
    exact ordered.settled
  · rw [calls]
    exact ordered.answered

theorem ordered_send_clear (sender : s.sender = none) (channel : s.channel = none) (msg : Bytes) :
    ∃ items', Ordered aead items' (peerSend aead s msg) := by
  cases written : writeMessage msg with
  | none =>
    have same : peerSend aead s msg = s := by simp [peerSend,sender,written]
    exact ⟨items,by rw [same]; exact ordered⟩
  | some octets =>
    obtain ⟨small,rfl⟩ := writeMessage_eq_some.mp written
    have sent : peerSend aead s msg = { s with octets := s.octets ++ frame msg, sent := s.sent ++ [msg] } := by
      simp [peerSend,sender,written]
    refine ⟨items ++ [(0,msg)],?_⟩
    rw [sent]
    refine ordered_due ordered rfl rfl rfl rfl ?_ rfl ?_ ?_
    · rw [channel]
      rfl
    · rw [channel]
      exact small
    · rw [sender,channel]
      trivial

theorem ordered_send_sealed {tx rx} (sender : s.sender = some tx) (channel : s.channel = some rx)
    {msg} (within : msg.length + 24 ≤ maxMessageSize) :
    Ordered aead (items ++ [(tx.sendSeq,msg)]) (peerSend aead s msg) := by
  have counted := ordered.counted
  rw [sender,channel] at counted
  obtain ⟨key,strict,counts,level⟩ := counted
  have limit : msg.length + 24 < 2 ^ 31 := by
    unfold maxMessageSize at within
    omega
  have sealed : (cwireEncrypt aead tx msg).2.bind writeMessage =
      some (frame (packet aead tx.sendKey tx.sendSeq msg)) := by
    rw [cwireEncrypt_result,intReturn_of_lt (by rw [packet_length]; exact limit),Option.bind_some]
    exact writeMessage_eq_some.mpr ⟨by rw [packet_length]; exact within,rfl⟩
  have sent : peerSend aead s msg = { s with
      sender := some (cwireEncrypt aead tx msg).1
      octets := s.octets ++ frame (packet aead tx.sendKey tx.sendSeq msg)
      sent := s.sent ++ [msg] } := by
    simp only [peerSend,sender,sealed]
  rw [sent]
  refine ordered_due ordered rfl rfl rfl rfl ?_ rfl ?_ ?_
  · simp [channel,payloadOf,key]
  · simp only [channel,payloadOf,packet_length]
    exact within
  · simp only [channel,Counted,cwireEncrypt_state,map_append,map_singleton,length_append,length_singleton]
    refine ⟨key,strict,?_,?_⟩
    · rw [level]
      simpa using countsFrom_snoc counts
    · rw [level,UInt64.ofNat_add,← UInt64.add_assoc]
      rfl

theorem ordered_send {msg} (fits : s.sender.isSome → msg.length + 24 ≤ maxMessageSize) :
    ∃ items', Ordered aead items' (peerSend aead s msg) := by
  have counted := ordered.counted
  cases sender : s.sender with
  | none =>
    cases channel : s.channel with
    | none => exact ordered_send_clear ordered sender channel msg
    | some rx =>
      rw [sender,channel] at counted
      cases counted
  | some tx =>
    cases channel : s.channel with
    | none =>
      rw [sender,channel] at counted
      cases counted
    | some rx => exact ⟨_,ordered_send_sealed ordered sender channel (fits (by rw [sender]; rfl))⟩

theorem ordered_start (all : ∀ call ∈ s.calls, call.settled) : Ordered aead items (step aead s .start).1 := by
  have settled : (current s).settled = true := by
    unfold current
    cases last : s.calls.getLast? with
    | none => rfl
    | some call => exact all call (mem_of_getLast? last)
  obtain ⟨result,ended⟩ := settled_phase settled
  have fed := ordered.fed
  have sent := ordered.sent
  rw [ended] at fed
  rw [settled_holding settled] at sent
  have now : current (step aead s .start).1 = ⟨.header [],none⟩ := by simp [current,step]
  refine ⟨ordered.counted,ordered.small,?_,?_,?_,?_⟩
  · rw [now]
    exact ⟨by decide,fun whole => fed whole⟩
  · rw [now]
    exact sent
  · intro j call found before
    simp only [step,length_append,length_singleton] at before
    simp only [step] at found
    rw [getElem?_append_left (by omega)] at found
    exact all call (mem_of_getElem? found)
  · intro call mem msg answer
    rcases mem_snoc.mp mem with old | new
    · exact ordered.answered call old msg answer
    · rw [new] at answer
      cases answer

theorem ordered_read (i n : Nat) : Ordered aead items (step aead s (.read i n)).1 := by
  simp only [step]
  split
  · exact ordered
  · rename_i call here
    split
    · exact ordered
    · rename_i possible
      split
      · exact ordered
      · rename_i phase read
        push Not at possible
        have whole : s.broken = false := by simpa using possible.1
        obtain ⟨reading,holding⟩ := read_reading read
        obtain ⟨last,same,held,unanswered⟩ := running_last ordered here (by
          intro result ended
          rw [ended] at reading
          cases reading)
        have fed := ordered.fed
        have sent := ordered.sent
        rw [same,whole] at fed
        rw [same,held] at sent
        refine ordered_last ordered last rfl ordered.counted ordered.small ?_ ?_ ?_
        · rw [whole]
          exact fed_read ordered.small fed read
        · rw [holding]
          exact sent
        · intro msg answer
          exact absurd answer (unanswered msg)

theorem ordered_fail (i : Nat) : Ordered aead items (step aead s (.fail i)).1 := by
  simp only [step]
  split
  · exact ordered
  · rename_i call here
    split
    · rename_i reading
      obtain ⟨last,same,held,unanswered⟩ := running_last ordered here (by
        intro result ended
        rw [ended] at reading
        cases reading)
      have sent := ordered.sent
      rw [same,held] at sent
      refine ordered_last ordered last rfl ordered.counted ordered.small ?_ sent ?_
      · intro impossible
        cases impossible
      · intro msg answer
        exact absurd answer (unanswered msg)
    · exact ordered

end

theorem decryptRaw_due {item rest} (counted : Counted s.sender s.channel (item :: rest))
    (small : (payloadOf aead s.channel item).length ≤ maxMessageSize) :
    (decryptRaw aead s (payloadOf aead s.channel item)).2 = some item.2 ∧
      Counted s.sender (decryptRaw aead s (payloadOf aead s.channel item)).1 rest ∧
      payloadOf aead (decryptRaw aead s (payloadOf aead s.channel item)).1 = payloadOf aead s.channel := by
  cases channel : s.channel with
  | none =>
    simp only [decryptRaw,channel,payloadOf]
    refine ⟨trivial,?_,trivial⟩
    cases sender : s.sender with
    | none => trivial
    | some tx =>
      rw [sender,channel] at counted
      cases counted
  | some rx =>
    cases sender : s.sender with
    | none =>
      rw [sender,channel] at counted
      cases counted
    | some tx =>
      rw [sender,channel] at counted
      rw [channel,payloadOf,packet_length] at small
      obtain ⟨key,strict,⟨number,counts⟩,level⟩ := counted
      have limit : item.2.length < 2 ^ 31 := by unfold maxMessageSize at small; omega
      have opens : cwireDecrypt aead rx (packet aead rx.recvKey item.1 item.2) = _ :=
        (cwireDecrypt_strict strict limit item.1).trans (if_pos number)
      simp only [decryptRaw,channel,payloadOf,opens]
      refine ⟨trivial,⟨key,strict,?_,?_⟩,rfl⟩
      · rw [number]
        exact counts
      · rw [level,number,length_cons,Nat.add_comm rest.length 1,UInt64.ofNat_add,← UInt64.add_assoc]
        rfl

section
variable (ordered : Ordered aead items s)
include ordered

theorem ordered_decrypt (i : Nat) : ∃ items', Ordered aead items' (step aead s (.decrypt i)).1 := by
  simp only [step]
  split
  · rename_i raw answer here
    obtain ⟨last,same,empty,unanswered⟩ := running_last ordered here (by
      intro result ended
      cases ended)
    have fed := ordered.fed
    have sent := ordered.sent
    rw [same] at fed
    rw [same,empty] at sent
    obtain ⟨item,rest,rfl,rfl,later⟩ := fed
    obtain ⟨opened,counted,payload⟩ := decryptRaw_due ordered.counted (ordered.small item mem_cons_self)
    refine ⟨rest,ordered_last ordered last rfl counted ?_ ?_ ?_ ?_⟩
    · rw [payload]
      exact fun other mem => ordered.small other (mem_cons_of_mem _ mem)
    · rw [payload]
      exact later
    · have held : (Call.mk (.ended (some item.2)) answer).holding = [item.2] := by
        cases answer with
        | none => rfl
        | some outcome =>
          cases outcome with
          | message msg => exact absurd rfl (unanswered msg)
          | _ => rfl
      rw [opened,held]
      simpa using sent
    · intro msg answered
      exact absurd answered (unanswered msg)
  · exact ⟨items,ordered⟩

theorem ordered_finish (i : Nat) : Ordered aead items (step aead s (.finish i)).1 := by
  simp only [step]
  split
  · rename_i here
    exact ordered_answer ordered here (fun _ impossible => by cases impossible)
  · rename_i msg here
    have last := last_of_unsettled ordered here rfl
    have same := current_eq here last
    have fed := ordered.fed
    have sent := ordered.sent
    rw [same] at fed sent
    refine ordered_last ordered last rfl ordered.counted ordered.small fed ?_ (fun _ _ => rfl)
    simpa [Call.holding] using sent
  · exact ordered

theorem ordered_cancel (i : Nat) : Ordered aead items (step aead s (.cancel i)).1 := by
  simp only [step]
  split
  · rename_i phase here
    exact ordered_answer ordered here (fun _ impossible => by cases impossible)
  · exact ordered

theorem ordered_step {e} (orderly : Orderly s e) : ∃ items', Ordered aead items' (step aead s e).1 := by
  cases e with
  | send msg => exact ordered_send ordered orderly
  | start => exact ⟨items,ordered_start ordered orderly⟩
  | read i n => exact ⟨items,ordered_read ordered i n⟩
  | fail i => exact ⟨items,ordered_fail ordered i⟩
  | decrypt i => exact ordered_decrypt ordered i
  | finish i => exact ⟨items,ordered_finish ordered i⟩
  | cancel i => exact ⟨items,ordered_cancel ordered i⟩

end

theorem ordered_run {events} (start : ∃ items, Ordered aead items s)
    (orderly : Along (step aead) Orderly s events) : ∃ items, Ordered aead items (final (step aead) s events) :=
  final_invariant (I := fun s => ∃ items, Ordered aead items s)
    (fun _ _ holds meets => by obtain ⟨items,ordered⟩ := holds; exact ordered_step ordered meets) start orderly

end

/-- No call that returned a context error has taken a message. -/
def NoneLost (s : State) : Prop := ∀ call ∈ s.calls, call.answer = some .cancelled → call.phase.took = false

theorem noneLost_set {s t} (old : NoneLost s) (calls : t.calls = s.calls.set i call)
    (new : call.answer = some .cancelled → call.phase.took = false) : NoneLost t := by
  intro other mem cancelled
  rw [calls] at mem
  rcases mem_or_eq_of_mem_set mem with before | rfl
  · exact old other before cancelled
  · exact new cancelled

theorem noneLost_step {aead s e} (old : NoneLost s) (orderly : Orderly s e) : NoneLost (step aead s e).1 := by
  cases e with
  | send msg =>
    have calls : (peerSend aead s msg).calls = s.calls := by
      unfold peerSend
      split <;> split <;> rfl
    intro call mem
    exact old call (calls ▸ mem)
  | start =>
    intro call mem cancelled
    rcases mem_snoc.mp mem with before | rfl
    · exact old call before cancelled
    · cases cancelled
  | read i n =>
    simp only [step]
    split
    · exact old
    · rename_i call here
      split
      · exact old
      · split
        · exact old
        · exact noneLost_set old rfl (fun cancelled => absurd cancelled (orderly call here))
  | fail i =>
    simp only [step]
    split
    · exact old
    · split
      · exact noneLost_set old rfl (fun _ => rfl)
      · exact old
  | decrypt i =>
    simp only [step]
    split
    · rename_i raw answer here
      -- a goroutine that decrypts has taken a message already
      refine noneLost_set old rfl (fun cancelled => ?_)
      cases old _ (mem_of_getElem? here) cancelled
    · exact old
  | finish i =>
    simp only [step]
    split
    · exact noneLost_set old rfl (fun _ => rfl)
    · exact noneLost_set old rfl nofun
    · exact old
  | cancel i =>
    simp only [step]
    split
    · rename_i phase here
      exact noneLost_set old rfl (fun _ => orderly ⟨phase,none⟩ here)
    · exact old

def inTurn : List Event :=
  [.start,.send [1],.send [2],.read 0 3,.read 0 1,.read 0 20,.read 0 5,.decrypt 0,.finish 0,
    .start,.read 1 4,.read 1 25,.decrypt 1,.finish 1,.start,.cancel 2]

end Pigeon.RecvOrder
