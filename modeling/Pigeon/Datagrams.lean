import Pigeon.CSession
import Pigeon.GoSession
import Pigeon.Pieces

/-!
Sending a datagram in the Go library (`api.go`, `fragment.go`) and in the C library
(`pigeon.c`): whole, or in parts that are sealed by themselves. Frames of a send that succeeds
fit the maximum and carry the pieces (`Emitted.fits`, `Emitted.carries`). The Go library takes
the length of a sealed part from a C `int`, so a part of 2 ^ 32 octets or more is cut off
(`datagram_split`).
-/
namespace Pigeon.Datagrams
open Octets Sealing Crypto Framing Pieces List Option
open CSession (pigeonMaxMsg)
open GoSession (cwireEncrypt)

def dgConnWhole : UInt8 := 0x00
def dgConnFragment : UInt8 := 0x40
def fragHeaderSize : Nat := 8
def maxDatagramPayload : Nat := 1200
def aeadOverhead : Nat := 8 + 16
def pigeonMaxVarintLen : Nat := 10

def encodeDatagramPlaintext (channelId : UInt64) (payload : Bytes) : Bytes := putUvarint 9 channelId.toNat ++ payload

def decodeDatagramPlaintext (buf : Bytes) : Option (Nat × Bytes) := getUvarint 0 0 buf

def encodePartWire (msgID : UInt32) (index total : UInt16) (ct : Bytes) : Bytes :=
  if total ≤ 1 then dgConnWhole :: ct
  else dgConnFragment :: (be 4 msgID.toNat ++ (be 2 index.toNat ++ (be 2 total.toNat ++ ct)))

structure Outer where
  (msgID index total : Nat)
deriving DecidableEq

def decodePartWire (data : Bytes) : Option (Outer × Bytes) :=
  if data.length < 2 then none
  else if data.head? = some dgConnWhole then some (⟨0,0,1⟩,data.drop 1)
  else if data.head? = some dgConnFragment then
    if data.length < 1 + fragHeaderSize then none
    else
      let index := ofBe ((data.drop 5).take 2)
      let total := ofBe ((data.drop 7).take 2)
      if total < 2 ∨ total ≤ index then none
      else some (⟨ofBe ((data.drop 1).take 4),index,total⟩,data.drop (1 + fragHeaderSize))
  else some (⟨0,0,1⟩,data)

section
variable (aead : Aead)

def readPart (key : Key) (data : Bytes) : Option (Outer × Nat × Bytes) := do
  let (outer,ct) ← decodePartWire data
  let plain ← opened aead key ct
  let part ← decodeDatagramPlaintext plain
  return (outer,part)

inductive SendError
  | noChannel
  | closedPipe
  | encrypt
  | tooLarge
  | transport

structure Sent (S : Type) where
  sender : S
  frames : List Bytes
  err : Option SendError

def sendParts (part : Channel → Nat → Channel × Option Bytes) (takes : Nat → Bool) :
    Nat → Nat → Channel → Sent Channel
  | 0, _, ch => ⟨ch,[],none⟩
  | left + 1, i, ch =>
    match part ch i with
    | (ch',none) => ⟨ch',[],some .encrypt⟩
    | (ch',some frame) =>
      if takes i then
        let rest := sendParts part takes left (i + 1) ch'
        ⟨rest.sender,frame :: rest.frames,rest.err⟩
      else ⟨ch',[],some .transport⟩

def maxAppChunk (maxPayload outerOverhead channelIDLen : Int) : Int :=
  let budget := maxPayload - outerOverhead - aeadOverhead - channelIDLen
  if budget < 1 then 1 else budget

/-- The fields of the Go session that `Datagram.Send` uses, with whether it has a carrier. -/
structure GoSender where
  dgChannel : Option Channel
  carrier : Bool
  maxDgPayload : Int
  nextFragMsgID : UInt32

def goPart (id : UInt64) (payload : Bytes) (chunkBudget total : Nat) (msgID : UInt32) (ch : Channel) (i : Nat) :
    Channel × Option Bytes :=
  let sealed := cwireEncrypt aead ch (encodeDatagramPlaintext id (piece payload chunkBudget i))
  (sealed.1,sealed.2.map (encodePartWire msgID (UInt16.ofNat i) (UInt16.ofNat total)))

/-- `Datagram.Send`. -/
def goSend (s : GoSender) (id : UInt64) (payload : Bytes) (takes : Nat → Bool) : Sent GoSender :=
  match s.dgChannel with
  | none => ⟨s,[],some .noChannel⟩
  | some ch =>
    if s.carrier = false then ⟨s,[],some .closedPipe⟩
    else
      let maxP := if s.maxDgPayload ≤ 0 then (maxDatagramPayload : Int) else s.maxDgPayload
      let wholeBudget := maxAppChunk maxP 1 10
      if payload.length ≤ wholeBudget then
        match cwireEncrypt aead ch (encodeDatagramPlaintext id payload) with
        | (ch',none) => ⟨{ s with dgChannel := some ch' },[],some .encrypt⟩
        | (ch',some ct) =>
          if takes 0 then ⟨{ s with dgChannel := some ch' },[encodePartWire 0 0 1 ct],none⟩
          else ⟨{ s with dgChannel := some ch' },[],some .transport⟩
      else
        let chunkBudget := maxAppChunk maxP (1 + fragHeaderSize) 10
        if chunkBudget < 1 then ⟨s,[],some .tooLarge⟩
        else
          let total := (payload.length + chunkBudget.toNat - 1) / chunkBudget.toNat
          if 65535 < total then ⟨s,[],some .tooLarge⟩
          else
            let total := if total < 2 then 2 else total
            let msgID := s.nextFragMsgID + 1
            let sent := sendParts (goPart aead id payload chunkBudget.toNat total msgID) takes total 0 ch
            ⟨{ s with dgChannel := some sent.sender, nextFragMsgID := msgID },sent.frames,sent.err⟩

/-- `pigeon_dg_chunk_budget`. -/
def pigeonDgChunkBudget (maxPayload outerOh : Nat) : Nat :=
  if maxPayload ≤ outerOh + 24 + 10 then 1 else maxPayload - outerOh - 24 - 10

/-- `pigeon_wire_datagram_plaintext_encode` into a buffer of `outLen` octets. -/
def wireDatagramPlaintextEncode (channelId : UInt64) (payload : Bytes) (outLen : Nat) : Option Bytes :=
  if outLen < (encodeDatagramPlaintext channelId payload).length then none
  else intReturn (encodeDatagramPlaintext channelId payload)

def encodeDatagram (ch : Channel) (channelId : UInt64) (payload : Bytes) (outLen : Nat) : Channel × Option Bytes :=
  if pigeonMaxMsg < payload.length then (ch,none)
  else
    match wireDatagramPlaintextEncode channelId payload (pigeonMaxVarintLen + pigeonMaxMsg) with
    | none => (ch,none)
    | some plain => channelEncrypt aead ch plain outLen

/-- The fields of `pigeon_session` that `pigeon_datagram_send` uses, with whether the transport can send datagrams. -/
structure CSender where
  dgChannel : Option Channel
  sendDatagram : Bool
  maxDgPayload : Nat
  nextDgMsgId : UInt32

def scratch (frame : Bytes) : Option Bytes := if pigeonMaxMsg + 64 < frame.length then none else some frame

def cPart (id : UInt64) (payload : Bytes) (chunkBudget total : Nat) (msgId : UInt32) (ch : Channel) (i : Nat) :
    Channel × Option Bytes :=
  let sealed := encodeDatagram aead ch id (piece payload chunkBudget i) (pigeonMaxMsg + 64)
  (sealed.1,sealed.2.bind (fun wire =>
    scratch (dgConnFragment :: (be 4 msgId.toNat ++ (be 2 i ++ (be 2 total ++ wire))))))

/-- `pigeon_datagram_send`. -/
def cSend (s : CSender) (id : UInt64) (payload : Bytes) (takes : Nat → Bool) : Sent CSender :=
  match s.dgChannel with
  | none => ⟨s,[],some .noChannel⟩
  | some ch =>
    if s.sendDatagram = false then ⟨s,[],some .closedPipe⟩
    else
      let maxP := if s.maxDgPayload = 0 then maxDatagramPayload else s.maxDgPayload
      if payload.length ≤ pigeonDgChunkBudget maxP 1 then
        match encodeDatagram aead ch id payload (pigeonMaxMsg + 64) with
        | (ch',none) => ⟨{ s with dgChannel := some ch' },[],some .encrypt⟩
        | (ch',some wire) =>
          match scratch (dgConnWhole :: wire) with
          | none => ⟨{ s with dgChannel := some ch' },[],some .encrypt⟩
          | some frame =>
            if takes 0 then ⟨{ s with dgChannel := some ch' },[frame],none⟩
            else ⟨{ s with dgChannel := some ch' },[],some .transport⟩
      else
        let chunkBudget := pigeonDgChunkBudget maxP (1 + fragHeaderSize)
        if chunkBudget < 1 then ⟨s,[],some .tooLarge⟩
        else
          let total := (payload.length + chunkBudget - 1) / chunkBudget
          let total := if total < 2 then 2 else total
          if 65535 < total then ⟨s,[],some .tooLarge⟩
          else
            let msgId := s.nextDgMsgId
            let next := if msgId + 1 = 0 then 1 else msgId + 1
            let sent := sendParts (cPart aead id payload chunkBudget total msgId) takes total 0 ch
            ⟨{ s with dgChannel := some sent.sender, nextDgMsgId := next },sent.frames,sent.err⟩

end

def cut (maxP : Nat) (payload : Bytes) : List Bytes :=
  if payload.length ≤ maxP - 35 then [payload]
  else (range ((payload.length + (maxP - 43) - 1) / (maxP - 43))).map (piece payload (maxP - 43))

/-- They fit, and a peer with the key reads part 0 of so many with the first chunk, and so on, under one number. -/
def Carries (aead : Aead) (key : Key) (maxP : Nat) (id : UInt64) (chunks frames : List Bytes) : Prop :=
  (∀ frame ∈ frames, frame.length ≤ maxP) ∧
    ∃ msgID, frames.map (readPart aead key) =
      chunks.zipIdx.map (fun chunk => some (⟨msgID,chunk.2,chunks.length⟩,id.toNat,chunk.1))

def fragment (msgID i total : Nat) (ct : Bytes) : Bytes :=
  dgConnFragment :: (be 4 msgID ++ (be 2 i ++ (be 2 total ++ ct)))

theorem decode_whole {ct : Bytes} (nonempty : 0 < ct.length) :
    decodePartWire (dgConnWhole :: ct) = some (⟨0,0,1⟩,ct) := by
  have long : ¬ (dgConnWhole :: ct).length < 2 := by
    rw [length_cons]
    omega
  rw [decodePartWire,if_neg long]
  rfl

theorem take_append_be (w n : Nat) (rest : Bytes) : (be w n ++ rest).take w = be w n := take_left' (be_length w n)

theorem drop_append_be (w n : Nat) (rest : Bytes) : (be w n ++ rest).drop w = rest := drop_left' (be_length w n)

variable {i total : Nat} {frame : Bytes} {ch : Channel} {takes : Nat → Bool} {R : Nat → Bytes → Prop}
  {frames chunks : List Bytes} {s : GoSender} {numbers : List Nat}

theorem decode_fragment {msgID : Nat} (number : msgID < 2 ^ 32) (inside : i < total) (several : 2 ≤ total)
    (few : total ≤ 65535) (ct : Bytes) : decodePartWire (fragment msgID i total ct) = some (⟨msgID,i,total⟩,ct) := by
  have long : ¬ (fragment msgID i total ct).length < 1 + fragHeaderSize := by
    simp only [fragment,fragHeaderSize,length_cons,length_append,be_length]
    omega
  have after1 : (fragment msgID i total ct).drop 1 = be 4 msgID ++ (be 2 i ++ (be 2 total ++ ct)) := rfl
  have after5 : (fragment msgID i total ct).drop 5 = be 2 i ++ (be 2 total ++ ct) := by
    rw [← drop_drop (i := 4) (j := 1),after1,drop_append_be]
  have after7 : (fragment msgID i total ct).drop 7 = be 2 total ++ ct := by
    rw [← drop_drop (i := 2) (j := 5),after5,drop_append_be]
  have after9 : (fragment msgID i total ct).drop (1 + fragHeaderSize) = ct := by
    show (fragment msgID i total ct).drop 9 = ct
    rw [← drop_drop (i := 2) (j := 7),after7,drop_append_be]
  have msgIs : ofBe (be 4 msgID) = msgID := by rw [ofBe_be]; exact Nat.mod_eq_of_lt (by omega)
  have indexIs : ofBe (be 2 i) = i := by rw [ofBe_be]; exact Nat.mod_eq_of_lt (by omega)
  have totalIs : ofBe (be 2 total) = total := by rw [ofBe_be]; exact Nat.mod_eq_of_lt (by omega)
  have notShort : ¬ (fragment msgID i total ct).length < 2 := by
    simp only [fragHeaderSize] at long
    omega
  have notWhole : (fragment msgID i total ct).head? ≠ some dgConnWhole := by simp [fragment,dgConnFragment,dgConnWhole]
  have isFragment : (fragment msgID i total ct).head? = some dgConnFragment := rfl
  have sound : ¬ (total < 2 ∨ total ≤ i) := by omega
  rw [decodePartWire,if_neg notShort,if_neg notWhole,if_pos isFragment,if_neg long,after1,after5,after7,after9]
  simp only [take_append_be,msgIs,indexIs,totalIs]
  rw [if_neg sound]

section
variable (aead : Aead) (key : Key) (id : UInt64)

/-- What the caller of `pigeon_channel_encrypt` has of a sealed chunk. -/
def Sealed (chunk ct : Bytes) : Prop :=
  ∃ seq, intReturn (packet aead key seq (encodeDatagramPlaintext id chunk)) = some ct

def packetLength (chunkLength : Nat) : Nat := (putUvarint 9 id.toNat).length + chunkLength + 24

variable {aead key id} {chunk ct : Bytes}

theorem length_packet (aead : Aead) (key : Key) (id seq : UInt64) (chunk : Bytes) :
    (packet aead key seq (encodeDatagramPlaintext id chunk)).length = packetLength id chunk.length := by
  rw [packet_length,encodeDatagramPlaintext,length_append,packetLength]

theorem packetLength_le (id : UInt64) (n : Nat) : packetLength id n ≤ n + 34 := by
  have := length_putUvarint_le 9 id.toNat
  rw [packetLength]
  omega

section
variable (made : Sealed aead key id chunk ct)
include made

theorem Sealed.take :
    ∃ seq, ct = (packet aead key seq (encodeDatagramPlaintext id chunk)).take (packetLength id chunk.length % 2 ^ 32) := by
  obtain ⟨seq,returned⟩ := made
  rw [intReturn,length_packet] at returned
  split_ifs at returned
  exact ⟨seq,(Option.some.inj returned).symm⟩

theorem Sealed.length_le : ct.length ≤ packetLength id chunk.length := by
  obtain ⟨seq,rfl⟩ := made.take
  rw [length_take,length_packet]
  exact Nat.min_le_right _ _

theorem Sealed.length_lt : ct.length < 2 ^ 31 := by
  obtain ⟨seq,returned⟩ := made
  exact length_of_intReturn returned

theorem Sealed.opens (short : packetLength id chunk.length < 2 ^ 32) :
    opened aead key ct = some (encodeDatagramPlaintext id chunk) := by
  obtain ⟨seq,rfl⟩ := made.take
  rw [Nat.mod_eq_of_lt short,← length_packet aead key id seq chunk,take_length,opened_packet]

end

theorem decode_plaintext (id : UInt64) (chunk : Bytes) :
    decodeDatagramPlaintext (encodeDatagramPlaintext id chunk) = some (id.toNat,chunk) := by
  have word : id.toNat * 128 ^ 0 < 2 ^ 64 := by
    have := id.toNat_lt
    omega
  rw [decodeDatagramPlaintext,encodeDatagramPlaintext,getUvarint_putUvarint (by omega) word]
  simp

theorem readPart_of_opened {outer : Outer} (decoded : decodePartWire frame = some (outer,ct))
    (opens : opened aead key ct = some (encodeDatagramPlaintext id chunk)) :
    readPart aead key frame = some (outer,id.toNat,chunk) := by
  simp [readPart,decoded,opens,decode_plaintext]

theorem length_of_readPart {outer outer' : Outer} {n : Nat} {body : Bytes}
    (decoded : decodePartWire frame = some (outer,ct)) (read : readPart aead key frame = some (outer',n,body)) :
    body.length + 25 ≤ ct.length := by
  simp only [readPart,decoded,bind_eq_bind,bind_some,bind_eq_some_iff] at read
  obtain ⟨plain,opens,part,parsed,same⟩ := read
  have long := length_of_opened aead opens
  cases same
  have shorter := length_of_getUvarint parsed
  omega

end

theorem sendParts_forall {part : Channel → Nat → Channel × Option Bytes} {left : Nat}
    (done : (sendParts part takes left i ch).err = none) {I : Channel → Prop} (start : I ch)
    (makes : ∀ ch i ch' frame, I ch → part ch i = (ch',some frame) → I ch' ∧ R i frame) :
    Forall₂ R (range' i left) (sendParts part takes left i ch).frames := by
  induction left generalizing i ch with
  | zero => exact Forall₂.nil
  | succ left ih =>
    rw [sendParts] at done ⊢
    cases made : part ch i with
    | mk ch' frame =>
      cases frame with
      | none => simp [made] at done
      | some frame =>
        obtain ⟨still,related⟩ := makes ch i ch' frame start made
        cases taken : takes i with
        | false => simp [made,taken] at done
        | true =>
          simp only [made,taken,if_true] at done ⊢
          exact Forall₂.cons related (ih done still)

section
variable (aead : Aead) (key : Key) (maxP : Nat) (id : UInt64) (payload : Bytes)

def partsOf : Nat := (payload.length + (maxP - 43) - 1) / (maxP - 43)

inductive Emitted (frames : List Bytes) : Prop
  | whole (fits : payload.length ≤ maxP - 35) (ct : Bytes) (made : Sealed aead key id payload ct)
      (one : frames = [dgConnWhole :: ct])
  | parts (large : maxP - 35 < payload.length) (few : partsOf maxP payload ≤ 65535) (msgID : Nat) (number : msgID < 2 ^ 32)
      (each : Forall₂ (fun i frame => ∃ ct, Sealed aead key id (piece payload (maxP - 43) i) ct ∧
        frame = fragment msgID i (partsOf maxP payload) ct) (range (partsOf maxP payload)) frames)

def firstPart : Nat := if payload.length ≤ maxP - 35 then payload.length else maxP - 43

variable {aead key maxP id payload}

theorem partsOf_ge (room : 44 ≤ maxP) (large : maxP - 35 < payload.length) : 2 ≤ partsOf maxP payload := by
  rw [partsOf,Nat.le_div_iff_mul_le (by omega)]
  omega

theorem flatten_cut (room : 44 ≤ maxP) : (cut maxP payload).flatten = payload := by
  unfold cut
  split
  next => simp
  next => exact flatten_pieces (length_le_pieces _ (by omega))

theorem zipIdx_map_range {Q : Type} (f : Nat → Bytes) (g : Bytes × Nat → Q) (n : Nat) :
    ((range n).map f).zipIdx.map g = (range n).map (fun i => g (f i,i)) := by
  refine ext_getElem (by simp) (fun i _ _ => ?_)
  simp

theorem map_eq_of_forall₂ {Q : Type} {g : Bytes → Q} {h : Nat → Q} (each : Forall₂ R numbers frames)
    (same : ∀ i ∈ numbers, ∀ frame, R i frame → g frame = h i) : frames.map g = numbers.map h := by
  induction each with
  | nil => rfl
  | cons related _ ih =>
    rw [map_cons,map_cons,same _ mem_cons_self _ related,ih (fun i mem => same i (mem_cons_of_mem _ mem))]

theorem exists_of_forall₂ (each : Forall₂ R numbers frames) (mem : frame ∈ frames) : ∃ i ∈ numbers, R i frame := by
  induction each with
  | nil => cases mem
  | cons related _ ih =>
    rcases mem_cons.mp mem with rfl | later
    · exact ⟨_,mem_cons_self,related⟩
    · obtain ⟨i,inside,found⟩ := ih later
      exact ⟨i,mem_cons_of_mem _ inside,found⟩

theorem Emitted.fits (room : 44 ≤ maxP) (emitted : Emitted aead key maxP id payload frames) :
    ∀ frame ∈ frames, frame.length ≤ maxP := by
  cases emitted with
  | whole fits ct made one =>
    subst one
    intro frame mem
    cases mem_singleton.mp mem
    have long := made.length_le
    have bound := packetLength_le id payload.length
    rw [length_cons]
    omega
  | parts large few msgID number each =>
    intro frame mem
    obtain ⟨i,-,ct,made,rfl⟩ := exists_of_forall₂ each mem
    have long := made.length_le
    have bound := packetLength_le id (piece payload (maxP - 43) i).length
    have small := length_piece_le payload (maxP - 43) i
    simp only [fragment,length_cons,length_append,be_length]
    omega

theorem Emitted.carries (room : 44 ≤ maxP) (emitted : Emitted aead key maxP id payload frames)
    (short : packetLength id (firstPart maxP payload) < 2 ^ 32) :
    Carries aead key maxP id (cut maxP payload) frames := by
  refine ⟨emitted.fits room,?_⟩
  cases emitted with
  | whole fits ct made one =>
    rw [firstPart,if_pos fits] at short
    have opens := made.opens short
    have long := length_of_opened aead opens
    refine ⟨0,?_⟩
    rw [one,cut,if_pos fits,map_singleton,readPart_of_opened (decode_whole (by omega)) opens]
    rfl
  | parts large few msgID number each =>
    rw [firstPart,if_neg (by omega)] at short
    refine ⟨msgID,?_⟩
    rw [cut,if_neg (by omega),zipIdx_map_range,length_map,length_range]
    refine map_eq_of_forall₂ each (fun i inside frame related => ?_)
    obtain ⟨ct,made,rfl⟩ := related
    have small := length_piece_le payload (maxP - 43) i
    have opens := made.opens (by rw [packetLength] at short ⊢; omega)
    exact readPart_of_opened (decode_fragment number (mem_range.mp inside) (partsOf_ge room large) few ct) opens

theorem flatten_length_le {pieces : List Bytes}
    (each : Forall₂ (fun p c : Bytes => c.length ≤ p.length + 9) pieces chunks) :
    chunks.flatten.length ≤ pieces.flatten.length + 9 * pieces.length := by
  induction each with
  | nil => simp
  | cons small _ ih =>
    simp only [flatten_cons,length_append,length_cons]
    omega

theorem length_of_readWhole {ct : Bytes} {outer : Outer} {n : Nat} {body : Bytes}
    (read : readPart aead key (dgConnWhole :: ct) = some (outer,n,body)) : body.length + 25 ≤ ct.length := by
  cases ct with
  | nil => cases read
  | cons first rest => exact length_of_readPart (decode_whole (Nat.succ_pos _)) read

theorem Carries.read (carries : Carries aead key maxP id chunks frames) : frames.length = chunks.length ∧
      ∀ (i : Nat) frame chunk, frames[i]? = some frame → chunks[i]? = some chunk →
        ∃ outer, readPart aead key frame = some (outer,id.toNat,chunk) := by
  obtain ⟨-,msgID,same⟩ := carries
  refine ⟨by simpa using congrArg length same,fun i frame chunk at_frame at_chunk => ?_⟩
  have here := congrArg (fun parts => parts[i]?) same
  simp only [getElem?_map,at_frame,getElem?_zipIdx,at_chunk,map_some,some.injEq] at here
  exact ⟨_,here⟩

theorem forall₂_chunks {T : Bytes → Bytes → Prop} (each : Forall₂ R numbers frames)
    (count : frames.length = chunks.length)
    (reads : ∀ (i : Nat) frame chunk, frames[i]? = some frame → chunks[i]? = some chunk → T frame chunk) :
    Forall₂ (fun i chunk => ∃ frame, R i frame ∧ T frame chunk) numbers chunks := by
  induction each generalizing chunks with
  | nil =>
    cases length_eq_zero_iff.mp count.symm
    exact Forall₂.nil
  | cons related _ ih =>
    cases chunks with
    | nil => cases count
    | cons chunk rest =>
      refine Forall₂.cons ⟨_,related,reads 0 _ chunk rfl rfl⟩ (ih (Nat.succ.inj count) ?_)
      exact fun i frame chunk at_frame at_chunk => reads (i + 1) frame chunk at_frame at_chunk

theorem Emitted.short_of_carries (room : 44 ≤ maxP) (emitted : Emitted aead key maxP id payload frames)
    (whole : chunks.flatten = payload) (carries : Carries aead key maxP id chunks frames) :
    packetLength id (firstPart maxP payload) < 2 ^ 32 := by
  obtain ⟨count,reads⟩ := carries.read
  by_contra long
  have bound := packetLength_le id (firstPart maxP payload)
  cases emitted with
  | whole fits ct made one =>
    rw [firstPart,if_pos fits] at long bound
    subst one
    obtain ⟨chunk,rfl⟩ := length_eq_one_iff.mp count.symm
    obtain ⟨outer,read⟩ := reads 0 _ chunk rfl rfl
    have shorter := length_of_readWhole read
    have cutOff := made.length_lt
    rw [flatten_singleton] at whole
    rw [← whole] at long bound
    omega
  | parts large few msgID number each =>
    rw [firstPart,if_neg (by omega)] at long bound
    have several := partsOf_ge room large
    have bounded : Forall₂ (fun i chunk => ∃ ct, Sealed aead key id (piece payload (maxP - 43) i) ct ∧
        length chunk + 25 ≤ ct.length) (range (partsOf maxP payload)) chunks := by
      refine ((forall₂_and_left _ _).mpr ⟨fun i => mem_range.mp,forall₂_chunks each count reads⟩).imp ?_
      rintro i chunk ⟨inside,frame,⟨ct,made,rfl⟩,outer,read⟩
      exact ⟨ct,made,length_of_readPart (decode_fragment number inside several few ct) read⟩
    have pieces : ((range (partsOf maxP payload)).map (piece payload (maxP - 43))).flatten = payload :=
      flatten_pieces (length_le_pieces _ (by omega))
    obtain ⟨rest,isRest⟩ : ∃ rest, partsOf maxP payload = rest + 1 := ⟨partsOf maxP payload - 1,by omega⟩
    rw [isRest,range_succ_eq_map] at bounded pieces
    obtain ⟨first,others,⟨ct,made,shorter⟩,later,rfl⟩ := forall₂_cons_left_iff.mp bounded
    have bigger : Forall₂ (fun p c : Bytes => c.length ≤ p.length + 9)
        (((range rest).map Nat.succ).map (piece payload (maxP - 43))) others := by
      refine forall₂_map_left_iff.mpr (later.imp ?_)
      rintro i chunk ⟨ct,made,shorter⟩
      have long := made.length_le
      have bound := packetLength_le id (piece payload (maxP - 43) i).length
      omega
    have total := flatten_length_le bigger
    have cutOff := made.length_lt
    have full : (piece payload (maxP - 43) 0).length = maxP - 43 := length_piece_full (by omega)
    have whole' := congrArg length whole
    have pieces' := congrArg length pieces
    rw [flatten_cons,length_append] at whole'
    rw [map_cons,flatten_cons,length_append,full] at pieces'
    simp only [length_map,length_range] at total
    omega

theorem channelEncrypt_some {ch' plain ct outLen} (made : channelEncrypt aead ch plain outLen = (ch',some ct)) :
    ch'.sendKey = ch.sendKey ∧ ∃ seq, intReturn (packet aead ch.sendKey seq plain) = some ct := by
  unfold channelEncrypt channelSeal at made
  split at made
  · cases congrArg Prod.snd made
  · have key := congrArg (·.1.sendKey) made
    exact ⟨key.symm,ch.sendSeq,congrArg Prod.snd made⟩

theorem wireDatagramPlaintextEncode_room {chunk} (small : chunk.length ≤ pigeonMaxMsg) :
    wireDatagramPlaintextEncode id chunk (pigeonMaxVarintLen + pigeonMaxMsg) =
      some (encodeDatagramPlaintext id chunk) := by
  have varint := length_putUvarint_le 9 id.toNat
  have length : (encodeDatagramPlaintext id chunk).length = (putUvarint 9 id.toNat).length + chunk.length :=
    length_append
  simp only [pigeonMaxMsg] at small
  rw [wireDatagramPlaintextEncode,if_neg,intReturn_of_lt]
  · rw [length]
    omega
  · simp only [pigeonMaxVarintLen,pigeonMaxMsg,length]
    omega

theorem encodeDatagram_some {ch' chunk wire outLen}
    (made : encodeDatagram aead ch id chunk outLen = (ch',some wire)) :
    ch'.sendKey = ch.sendKey ∧ chunk.length ≤ pigeonMaxMsg ∧ Sealed aead ch.sendKey id chunk wire := by
  unfold encodeDatagram at made
  split at made
  · cases congrArg Prod.snd made
  next small =>
    rw [wireDatagramPlaintextEncode_room (Nat.not_lt.mp small)] at made
    obtain ⟨sameKey,sealed⟩ := channelEncrypt_some made
    exact ⟨sameKey,Nat.not_lt.mp small,sealed⟩

theorem encodePartWire_eq (msgID : UInt32) (inside : i < total) (several : 2 ≤ total) (few : total ≤ 65535)
    (ct : Bytes) :
    encodePartWire msgID (UInt16.ofNat i) (UInt16.ofNat total) ct = fragment msgID.toNat i total ct := by
  have index : (UInt16.ofNat i).toNat = i := by rw [UInt16.toNat_ofNat']; omega
  have count : (UInt16.ofNat total).toNat = total := by rw [UInt16.toNat_ofNat']; omega
  have many : ¬ UInt16.ofNat total ≤ 1 := by
    rw [UInt16.le_iff_toNat_le,count]
    exact Nat.not_le.mpr several
  rw [encodePartWire,if_neg many,index,count,fragment]

theorem scratch_some {taken} (fits : scratch frame = some taken) : taken = frame := by
  unfold scratch at fits
  split_ifs at fits
  exact (Option.some.inj fits).symm

theorem budget_eq (maxP outer : Nat) : (pigeonDgChunkBudget maxP outer : Int) = maxAppChunk maxP outer 10 := by
  simp only [maxAppChunk,aeadOverhead,pigeonDgChunkBudget]
  split_ifs <;> omega

theorem maxAppChunk_whole (room : 44 ≤ maxP) : maxAppChunk maxP 1 10 = (maxP - 35 : Nat) := by
  simp only [maxAppChunk,aeadOverhead]
  split_ifs <;> omega

theorem maxAppChunk_part (room : 44 ≤ maxP) : maxAppChunk maxP (1 + fragHeaderSize) 10 = (maxP - 43 : Nat) := by
  simp only [maxAppChunk,aeadOverhead,fragHeaderSize]
  split_ifs <;> omega

theorem budget_whole (room : 44 ≤ maxP) : pigeonDgChunkBudget maxP 1 = maxP - 35 := by
  unfold pigeonDgChunkBudget
  split <;> omega

theorem budget_part (room : 44 ≤ maxP) : pigeonDgChunkBudget maxP (1 + fragHeaderSize) = maxP - 43 := by
  unfold pigeonDgChunkBudget fragHeaderSize
  split <;> omega

/-- A send of a session with a channel and a carrier: one frame, or one for each part. -/
def sendCut (whole : Channel → Channel × Option Bytes) (part : Channel → Nat → Channel × Option Bytes) (maxP : Nat)
    (payload : Bytes) (takes : Nat → Bool) (ch : Channel) : Sent Channel :=
  if payload.length ≤ maxP - 35 then sendParts (fun c _ => whole c) takes 1 0 ch
  else if 65535 < partsOf maxP payload then ⟨ch,[],some .tooLarge⟩
  else sendParts part takes (partsOf maxP payload) 0 ch

section
variable {whole : Channel → Channel × Option Bytes} {part : Channel → Nat → Channel × Option Bytes}

theorem sendCut_emits {Q : Nat → Prop} (msgID : UInt32) (room : 44 ≤ maxP)
    (makesWhole : ∀ c c' frame, c.sendKey = ch.sendKey → whole c = (c',some frame) → c'.sendKey = ch.sendKey ∧
      Q payload.length ∧ ∃ ct, Sealed aead ch.sendKey id payload ct ∧ frame = dgConnWhole :: ct)
    (makesPart : ∀ c i c' frame, c.sendKey = ch.sendKey → part c i = (c',some frame) → c'.sendKey = ch.sendKey ∧
      (i < partsOf maxP payload → 2 ≤ partsOf maxP payload → partsOf maxP payload ≤ 65535 →
        Q (piece payload (maxP - 43) i).length ∧ ∃ ct, Sealed aead ch.sendKey id (piece payload (maxP - 43) i) ct ∧
          frame = fragment msgID.toNat i (partsOf maxP payload) ct))
    (done : (sendCut whole part maxP payload takes ch).err = none) :
    Emitted aead ch.sendKey maxP id payload (sendCut whole part maxP payload takes ch).frames ∧
      Q (firstPart maxP payload) := by
  by_cases fits : payload.length ≤ maxP - 35
  · rw [sendCut,if_pos fits] at done ⊢
    have made := sendParts_forall done (I := fun c => c.sendKey = ch.sendKey) rfl (fun c _ => makesWhole c)
    obtain ⟨frame,rest,⟨small,ct,sealed,rfl⟩,none,frames⟩ := forall₂_cons_left_iff.mp made
    cases none
    refine ⟨.whole fits ct sealed frames,?_⟩
    rwa [firstPart,if_pos fits]
  · have large : maxP - 35 < payload.length := by omega
    rw [sendCut,if_neg fits] at done ⊢
    split at done
    · cases done
    next few =>
      rw [if_neg few]
      have made := sendParts_forall done (I := fun c => c.sendKey = ch.sendKey) rfl makesPart
      rw [← range_eq_range'] at made
      have several := partsOf_ge room large
      have each := ((forall₂_and_left _ _).mpr ⟨fun i => mem_range.mp,made⟩).imp
        (fun _ _ part => part.2 part.1 several (Nat.not_lt.mp few))
      refine ⟨.parts large (by omega) msgID.toNat (UInt32.toNat_lt _) (each.imp fun _ _ part => part.2),?_⟩
      have full : (piece payload (maxP - 43) 0).length = maxP - 43 := length_piece_full (by omega)
      have first := ((forall₂_and_left _ _).mp each).1 0 (mem_range.mpr (by omega))
      rwa [firstPart,if_neg fits,← full]

theorem length_cut (large : maxP - 35 < payload.length) : (cut maxP payload).length = partsOf maxP payload := by
  rw [cut,if_neg (by omega),length_map,length_range,partsOf]

theorem sendCut_refused (many : 65535 < (cut maxP payload).length) :
    (sendCut whole part maxP payload takes ch).frames = [] ∧
      (sendCut whole part maxP payload takes ch).err ≠ none := by
  have large : ¬ payload.length ≤ maxP - 35 := by
    intro fits
    rw [cut,if_pos fits,length_singleton] at many
    omega
  rw [length_cut (Nat.not_le.mp large)] at many
  simp [sendCut,large,many]

end

variable (aead id payload) in
def goWhole (ch : Channel) : Channel × Option Bytes :=
  let sealed := cwireEncrypt aead ch (encodeDatagramPlaintext id payload)
  (sealed.1,sealed.2.map (encodePartWire 0 0 1))

variable (aead id payload) in
def cWhole (ch : Channel) : Channel × Option Bytes :=
  let sealed := encodeDatagram aead ch id payload (pigeonMaxMsg + 64)
  (sealed.1,sealed.2.bind (fun wire => scratch (dgConnWhole :: wire)))

theorem goSend_eq (isMax : s.maxDgPayload = maxP) (room : 44 ≤ maxP) (channel : s.dgChannel = some ch)
    (carrier : s.carrier) :
    let sent := sendCut (goWhole aead id payload)
      (goPart aead id payload (maxP - 43) (partsOf maxP payload) (s.nextFragMsgID + 1)) maxP payload takes ch
    (goSend aead s id payload takes).frames = sent.frames ∧ (goSend aead s id payload takes).err = sent.err := by
  have positive : ¬ s.maxDgPayload ≤ 0 := by omega
  have budget : (payload.length : Int) ≤ maxAppChunk s.maxDgPayload 1 10 ↔ payload.length ≤ maxP - 35 := by
    rw [isMax,maxAppChunk_whole room]
    omega
  have chunk : maxAppChunk s.maxDgPayload (1 + fragHeaderSize) 10 = (maxP - 43 : Nat) := by
    rw [isMax,maxAppChunk_part room]
  have some' : ¬ ((maxP - 43 : Nat) : Int) < 1 := by omega
  simp only [goSend,channel,carrier,Bool.true_eq_false,if_false,positive,budget,chunk,some',Int.toNat_natCast,sendCut]
  by_cases fits : payload.length ≤ maxP - 35
  · simp only [if_pos fits,sendParts,goWhole]
    rcases cwireEncrypt aead ch (encodeDatagramPlaintext id payload) with ⟨ch',none | ct⟩
    · exact ⟨rfl,rfl⟩
    · cases takes 0 <;> exact ⟨rfl,rfl⟩
  · have several : ¬ partsOf maxP payload < 2 := Nat.not_lt.mpr (partsOf_ge room (Nat.not_le.mp fits))
    rw [if_neg fits,if_neg fits,← partsOf,if_neg several]
    split <;> exact ⟨rfl,rfl⟩

theorem cSend_eq {s} (isMax : s.maxDgPayload = maxP) (room : 44 ≤ maxP) (channel : s.dgChannel = some ch)
    (carrier : s.sendDatagram) :
    let sent := sendCut (cWhole aead id payload)
      (cPart aead id payload (maxP - 43) (partsOf maxP payload) s.nextDgMsgId) maxP payload takes ch
    (cSend aead s id payload takes).frames = sent.frames ∧ (cSend aead s id payload takes).err = sent.err := by
  have positive : ¬ s.maxDgPayload = 0 := by omega
  have some' : ¬ maxP - 43 < 1 := by omega
  simp only [cSend,channel,carrier,Bool.true_eq_false,if_false,isMax ▸ positive,isMax,budget_whole room,budget_part room,
    some',sendCut]
  by_cases fits : payload.length ≤ maxP - 35
  · simp only [if_pos fits,sendParts,cWhole]
    rcases encodeDatagram aead ch id payload (pigeonMaxMsg + 64) with ⟨ch',none | wire⟩
    · exact ⟨rfl,rfl⟩
    · simp only [bind_some]
      cases scratch (dgConnWhole :: wire) with
      | none => exact ⟨rfl,rfl⟩
      | some frame => cases takes 0 <;> exact ⟨rfl,rfl⟩
  · have several : ¬ partsOf maxP payload < 2 := Nat.not_lt.mpr (partsOf_ge room (Nat.not_le.mp fits))
    rw [if_neg fits,if_neg fits,← partsOf,if_neg several]
    split <;> exact ⟨rfl,rfl⟩

section
variable {chunk : Bytes} {header : Bytes → Bytes} {c c' : Channel} (same : c.sendKey = key)
include same

theorem goSealed_some (made : (let sealed := cwireEncrypt aead c (encodeDatagramPlaintext id chunk)
    (sealed.1,sealed.2.map header)) = (c',some frame)) :
    c'.sendKey = key ∧ ∃ ct, Sealed aead key id chunk ct ∧ frame = header ct := by
  subst same
  cases result : cwireEncrypt aead c (encodeDatagramPlaintext id chunk) with
  | mk next sealed =>
    simp only [result,Prod.mk.injEq,map_eq_some_iff] at made
    obtain ⟨rfl,ct,rfl,rfl⟩ := made
    obtain ⟨sameKey,sealed⟩ := channelEncrypt_some result
    exact ⟨sameKey,ct,sealed,rfl⟩

theorem cSealed_some (made : (let sealed := encodeDatagram aead c id chunk (pigeonMaxMsg + 64)
    (sealed.1,sealed.2.bind fun wire => scratch (header wire))) = (c',some frame)) :
    c'.sendKey = key ∧ chunk.length ≤ pigeonMaxMsg ∧ ∃ ct, Sealed aead key id chunk ct ∧ frame = header ct := by
  subst same
  cases result : encodeDatagram aead c id chunk (pigeonMaxMsg + 64) with
  | mk next wire =>
    simp only [result,Prod.mk.injEq,bind_eq_some_iff] at made
    obtain ⟨rfl,wire,rfl,fits⟩ := made
    obtain ⟨sameKey,small,sealed⟩ := encodeDatagram_some result
    exact ⟨sameKey,small,wire,sealed,scratch_some fits⟩

end

theorem goSend_emits (isMax : s.maxDgPayload = maxP) (room : 44 ≤ maxP) (channel : s.dgChannel = some ch)
    (done : (goSend aead s id payload takes).err = none) :
    Emitted aead ch.sendKey maxP id payload (goSend aead s id payload takes).frames := by
  have carrier : s.carrier := by
    cases set : s.carrier with
    | true => rfl
    | false => simp [goSend,channel,set] at done
  obtain ⟨frames,err⟩ := goSend_eq isMax room channel carrier
  rw [err] at done
  rw [frames]
  refine (sendCut_emits (Q := fun _ => True) (s.nextFragMsgID + 1) room (fun c c' frame same made => ?_)
    (fun c i c' frame same made => ?_) done).1
  · obtain ⟨sameKey,sealed⟩ := goSealed_some same made
    exact ⟨sameKey,trivial,sealed⟩
  · obtain ⟨sameKey,ct,sealed,rfl⟩ := goSealed_some same made
    exact ⟨sameKey,fun inside several few => ⟨trivial,ct,sealed,encodePartWire_eq _ inside several few ct⟩⟩

theorem cSend_emits {s} (isMax : s.maxDgPayload = maxP) (room : 44 ≤ maxP) (channel : s.dgChannel = some ch)
    (done : (cSend aead s id payload takes).err = none) :
    Emitted aead ch.sendKey maxP id payload (cSend aead s id payload takes).frames ∧
      firstPart maxP payload ≤ pigeonMaxMsg := by
  have carrier : s.sendDatagram := by
    cases set : s.sendDatagram with
    | true => rfl
    | false => simp [cSend,channel,set] at done
  obtain ⟨frames,err⟩ := cSend_eq isMax room channel carrier
  rw [err] at done
  rw [frames]
  exact sendCut_emits (Q := (· ≤ pigeonMaxMsg)) s.nextDgMsgId room (fun _ _ _ same made => cSealed_some same made)
    (fun _ _ _ _ same made => (cSealed_some same made).imp_right fun sealed _ _ _ => sealed) done

variable (aead id) in
theorem goSend_refused (isMax : s.maxDgPayload = maxP) (room : 44 ≤ maxP) (channel : s.dgChannel = some ch)
    (takes : Nat → Bool) (many : 65535 < (cut maxP payload).length) :
    (goSend aead s id payload takes).frames = [] ∧ (goSend aead s id payload takes).err ≠ none := by
  cases carrier : s.carrier with
  | false => simp [goSend,channel,carrier]
  | true =>
    rw [(goSend_eq isMax room channel carrier).1,(goSend_eq isMax room channel carrier).2]
    exact sendCut_refused many

variable (aead id) in
theorem cSend_refused {s} (isMax : s.maxDgPayload = maxP) (room : 44 ≤ maxP)
    (channel : s.dgChannel = some ch) (takes : Nat → Bool) (many : 65535 < (cut maxP payload).length) :
    (cSend aead s id payload takes).frames = [] ∧ (cSend aead s id payload takes).err ≠ none := by
  cases carrier : s.sendDatagram with
  | false => simp [cSend,channel,carrier]
  | true =>
    rw [(cSend_eq isMax room channel carrier).1,(cSend_eq isMax room channel carrier).2]
    exact sendCut_refused many

end

theorem goSend_cut_off (aead : Aead) {payload : Bytes} {maxP : Nat} {id : UInt64} (isMax : s.maxDgPayload = maxP)
    (room : 44 ≤ maxP) (channel : s.dgChannel = some ch) (carrier : s.carrier)
    (fits : payload.length ≤ maxP - 35) (wraps : packetLength id payload.length % 2 ^ 32 < 2 ^ 31)
    (takes : Nat → Bool) (taken : takes 0) : (goSend aead s id payload takes).err = none := by
  have returned : ∃ ct, intReturn (packet aead ch.sendKey ch.sendSeq (encodeDatagramPlaintext id payload)) = some ct := by
    rw [intReturn,length_packet,if_neg (by omega)]
    exact ⟨_,rfl⟩
  obtain ⟨ct,isCt⟩ := returned
  rw [(goSend_eq isMax room channel carrier).2,sendCut,if_pos fits]
  simp [sendParts,goWhole,cwireEncrypt,channelEncrypt,channelSeal,isCt,taken]

/-- A send of the Go library that succeeds carries the payload, cut in some way, if and only if the first packet has
    fewer than 2 ^ 32 octets, and then by the pieces of `cut`; one of the C library does always. The pieces make up
    the payload; more than 65535 are not sent. The budgets are the same. -/
theorem datagram_split (aead : Aead) (id : UInt64) (payload : Bytes) (takes : Nat → Bool) {maxP : Nat} (room : 44 ≤ maxP)
    {g : GoSender} {c : CSender} (goMax : g.maxDgPayload = maxP) (cMax : c.maxDgPayload = maxP) {goChannel cChannel : Channel}
    (hasGo : g.dgChannel = some goChannel) (hasC : c.dgChannel = some cChannel) :
    ((goSend aead g id payload takes).err = none → ((∃ chunks, chunks.flatten = payload ∧
          Carries aead goChannel.sendKey maxP id chunks (goSend aead g id payload takes).frames) ↔
        packetLength id (firstPart maxP payload) < 2 ^ 32) ∧
      (packetLength id (firstPart maxP payload) < 2 ^ 32 →
        Carries aead goChannel.sendKey maxP id (cut maxP payload) (goSend aead g id payload takes).frames)) ∧
    ((cSend aead c id payload takes).err = none →
      Carries aead cChannel.sendKey maxP id (cut maxP payload) (cSend aead c id payload takes).frames) ∧
    (cut maxP payload).flatten = payload ∧
    (65535 < (cut maxP payload).length →
      ((goSend aead g id payload takes).frames = [] ∧ (goSend aead g id payload takes).err ≠ none) ∧
        (cSend aead c id payload takes).frames = [] ∧ (cSend aead c id payload takes).err ≠ none) ∧
    ∀ outer : Nat, (pigeonDgChunkBudget maxP outer : Int) = maxAppChunk maxP outer 10 := by
  refine ⟨fun done => ?_,fun done => ?_,flatten_cut room,fun many => ?_,budget_eq maxP⟩
  · have emitted := goSend_emits goMax room hasGo done
    refine ⟨⟨?_,fun short => ⟨cut maxP payload,flatten_cut room,emitted.carries room short⟩⟩,emitted.carries room⟩
    rintro ⟨chunks,whole,carries⟩
    exact emitted.short_of_carries room whole carries
  · obtain ⟨emitted,small⟩ := cSend_emits cMax room hasC done
    have bound := packetLength_le id (firstPart maxP payload)
    refine emitted.carries room ?_
    simp only [pigeonMaxMsg] at small
    omega
  · obtain ⟨goNone,goErr⟩ := goSend_refused aead id goMax room hasGo takes many
    obtain ⟨cNone,cErr⟩ := cSend_refused aead id cMax room hasC takes many
    exact ⟨⟨goNone,goErr⟩,cNone,cErr⟩

def goSender (maxP : Nat) : GoSender := ⟨some (channelInit keyA keyB .datagrams),true,maxP,6⟩
def cSender (maxP : Nat) : CSender := ⟨some (channelInit keyA keyB .datagrams),true,maxP,7⟩

/-- Ten octets in frames of at most 44: ten parts of one octet each. -/
theorem ten_octets_split : (cut 44 (replicate 10 9)).length = 10 ∧
      (goSend checked (goSender 44) 5 (replicate 10 9) (fun _ => true)).err = none ∧
      (cSend checked (cSender 44) 5 (replicate 10 9) (fun _ => true)).err = none ∧
      Carries checked keyA 44 5 (cut 44 (replicate 10 9))
        (goSend checked (goSender 44) 5 (replicate 10 9) (fun _ => true)).frames ∧
      Carries checked keyA 44 5 (cut 44 (replicate 10 9))
        (cSend checked (cSender 44) 5 (replicate 10 9) (fun _ => true)).frames :=
  have split := datagram_split checked 5 (replicate 10 9) (fun _ => true) (by decide : 44 ≤ 44)
    (g := goSender 44) (c := cSender 44) rfl rfl rfl rfl
  ⟨by decide,by decide,by decide,(split.1 (by decide)).2 (by decide),split.2.1 (by decide)⟩

/-- 2 ^ 32 zeros as one datagram: the `int` with the length is 25, and the send succeeds with the first 25 octets. -/
theorem four_gigabytes_lost :
    (goSend checked (goSender (2 ^ 32 + 100)) 0 (replicate (2 ^ 32) 0) (fun _ => true)).err = none ∧
      ¬ ∃ chunks, chunks.flatten = replicate (2 ^ 32) 0 ∧ Carries checked keyA (2 ^ 32 + 100) 0 chunks
        (goSend checked (goSender (2 ^ 32 + 100)) 0 (replicate (2 ^ 32) 0) (fun _ => true)).frames := by
  have length : (replicate (2 ^ 32) (0 : UInt8)).length = 2 ^ 32 := length_replicate
  generalize replicate (2 ^ 32) (0 : UInt8) = payload at length
  have packet : packetLength 0 payload.length = 2 ^ 32 + 25 := by rw [packetLength,length]; rfl
  have fits : payload.length ≤ 2 ^ 32 + 100 - 35 := by omega
  have done := goSend_cut_off checked (s := goSender (2 ^ 32 + 100)) rfl (by omega) rfl rfl fits
    (by rw [packet]; decide) (fun _ => true) rfl
  refine ⟨done,?_⟩
  rintro ⟨chunks,whole,carries⟩
  have short := (goSend_emits (s := goSender (2 ^ 32 + 100)) rfl (by omega) rfl done).short_of_carries (by omega) whole carries
  rw [firstPart,if_pos fits,packet] at short
  omega

end Pigeon.Datagrams
