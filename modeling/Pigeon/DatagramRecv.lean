import Pigeon.Datagrams

/-!
Receiving a datagram in the Go library (`api.go`, `fragment.go`) and in the C library
(`pigeon.c`). Up to the lookup of the channel they do the same (`frames_received_alike`). A
datagram without the outer octet is taken for what it is unless it looks like a frame
(`unframed_whole_iff`), and the C library decodes what it encodes up to the largest message
(`datagram_comes_back_iff`).
-/
namespace Pigeon.DatagramRecv
open Octets Sealing Crypto Framing Datagrams List
open CSession (pigeonMaxMsg)
open GoSession (cwireDecrypt)

structure Incoming where
  outer : Outer
  channelId : Nat
  payload : Bytes
deriving DecidableEq

structure DatagramPart where
  outer : Outer
  payload : Bytes
deriving DecidableEq

section
variable (aead : Aead)

def goOpen (dgChannel : Channel) (ct : Bytes) : Channel × Option (Nat × Bytes) :=
  match cwireDecrypt aead dgChannel ct with
  | (ch',none) => (ch',none)
  | (ch',some plain) => (ch',decodeDatagramPlaintext plain)

/-- `deliverIncomingDatagram` up to the lookup. -/
def goIncoming (dgChannel : Option Channel) (payload : Bytes) : Option Channel × Option Incoming :=
  match dgChannel with
  | none => (none,none)
  | some ch =>
    match decodePartWire payload with
    | none => (some ch,none)
    | some (outer,ct) =>
      if ct.length = 0 then (some ch,none)
      else
        let read := goOpen aead ch ct
        (some read.1,read.2.map (fun read => ⟨outer,read.1,read.2⟩))

/-- The fields of the Go session that `deliverIncomingDatagram` uses: its datagram channels have an id and a queue. -/
structure GoReceiver where
  dgChannel : Option Channel
  datagrams : List (Nat × List DatagramPart)

/-- `Session.deliverIncomingDatagram`. -/
def deliverIncomingDatagram (s : GoReceiver) (payload : Bytes) : GoReceiver :=
  match goIncoming aead s.dgChannel payload with
  | (ch,none) => { s with dgChannel := ch }
  | (ch,some incoming) =>
    { dgChannel := ch
      datagrams := s.datagrams.map (fun dg =>
        if dg.1 = incoming.channelId ∧ dg.2.length < 64 then (dg.1,dg.2 ++ [⟨incoming.outer,incoming.payload⟩])
        else dg) }

/-- The parsing of the outer frame in `pigeon_datagram_recv`. -/
def pigeonOuter (got : Bytes) : Option (Outer × Bytes) :=
  if got.head? = some dgConnWhole then some (⟨0,0,1⟩,got.drop 1)
  else if 1 + fragHeaderSize ≤ got.length ∧ got.head? = some dgConnFragment then
    let index := ofBe ((got.drop 5).take 2)
    let total := ofBe ((got.drop 7).take 2)
    if total < 2 ∨ total ≤ index then none
    else some (⟨ofBe ((got.drop 1).take 4),index,total⟩,got.drop (1 + fragHeaderSize))
  else some (⟨0,0,1⟩,got)

/-- `pigeon_wire_datagram_plaintext_decode` into a buffer of `payloadBufLen` octets. -/
def wireDatagramPlaintextDecode (buf : Bytes) (payloadBufLen : Nat) : Option (Nat × Bytes) :=
  match uvarintDecode 0 0 buf with
  | none => none
  | some (channelId,rest) => if payloadBufLen < rest.length then none else some (channelId,rest)

/-- `pigeon_decode_datagram`. -/
def decodeDatagram (ch : Channel) (wire : Bytes) (payloadBufLen : Nat) : Channel × Option (Nat × Bytes) :=
  if !ch.established then (ch,none)
  else
    match channelDecrypt aead ch wire pigeonMaxMsg with
    | (ch',none) => (ch',none)
    | (ch',some plain) => (ch',wireDatagramPlaintextDecode plain payloadBufLen)

/-- `pigeon_encode_datagram`. -/
def pigeonEncodeDatagram (ch : Channel) (channelId : UInt64) (payload : Bytes) (outLen : Nat) :
    Channel × Option Bytes :=
  if !ch.established then (ch,none) else encodeDatagram aead ch channelId payload outLen

/-- `pigeon_datagram_recv` up to the comparison of the channel ids, with what the transport delivers. -/
def cIncoming (dgChannel : Channel) (got : Bytes) (bufLen : Nat) : Channel × Option Incoming :=
  if !dgChannel.established then (dgChannel,none)
  else if got.length = 0 then (dgChannel,none)
  else
    match pigeonOuter got with
    | none => (dgChannel,none)
    | some (outer,ct) =>
      let read := decodeDatagram aead dgChannel ct bufLen
      (read.1,read.2.map (fun read => ⟨outer,read.1,read.2⟩))

/-- The three kinds of results of `pigeon_datagram_recv`: -1, -2 and a length. -/
inductive RecvResult
  | failed
  | otherChannel
  | part (part : DatagramPart)

/-- `pigeon_datagram_recv`, where `arrived` is `none` when the transport fails. -/
def pigeonDatagramRecv (dgChannel : Channel) (channelId : UInt64) (arrived : Option Bytes) (bufLen : Nat) :
    Channel × RecvResult :=
  match arrived with
  | none => (dgChannel,.failed)
  | some got =>
    match cIncoming aead dgChannel got bufLen with
    | (ch,none) => (ch,.failed)
    | (ch,some incoming) =>
      if incoming.channelId = channelId.toNat then (ch,.part ⟨incoming.outer,incoming.payload⟩)
      else (ch,.otherChannel)

end

variable {ct : Bytes}

theorem decode_encode (msgID : UInt32) {index total} (inside : index < total) (nonempty : ct ≠ []) :
    decodePartWire (encodePartWire msgID index total ct) =
      some (⟨if total = 1 then 0 else msgID.toNat,index.toNat,total.toNat⟩,ct) := by
  have below : index.toNat < total.toNat := UInt16.lt_iff_toNat_lt.mp inside
  have bound := total.toNat_lt
  by_cases single : total = 1
  · subst single
    have first : index.toNat = 0 := by
      have one : (1 : UInt16).toNat = 1 := rfl
      omega
    rw [encodePartWire,if_pos (by decide),decode_whole (length_pos_iff.mpr nonempty),first]
    rfl
  · have several : 2 ≤ total.toNat := by
      have other : total.toNat ≠ 1 := fun same => single (UInt16.toNat_inj.mp same)
      omega
    have large : ¬ total ≤ 1 := by
      rw [UInt16.le_iff_toNat_le]
      have one : (1 : UInt16).toNat = 1 := rfl
      omega
    rw [encodePartWire,if_neg large,if_neg single]
    exact decode_fragment msgID.toNat_lt below several (by omega) ct

variable {got : Bytes}

theorem outer_eq (long : 1 + fragHeaderSize ≤ got.length) : decodePartWire got = pigeonOuter got := by
  have header : ¬ got.length < 1 + fragHeaderSize := Nat.not_lt.mpr long
  have two : ¬ got.length < 2 := by unfold fragHeaderSize at long; omega
  rw [decodePartWire,pigeonOuter,if_neg two,if_neg header]
  simp [long]

theorem outer_alike (got : Bytes) : decodePartWire got = pigeonOuter got ∨
      decodePartWire got = none ∧ ∃ outer ct, pigeonOuter got = some (outer,ct) ∧ ct.length < 8 + 16 := by
  by_cases long : 1 + fragHeaderSize ≤ got.length
  · exact .inl (outer_eq long)
  · have other : ¬ (1 + fragHeaderSize ≤ got.length ∧ got.head? = some dgConnFragment) := fun both => long both.1
    unfold fragHeaderSize at long
    by_cases whole : got.head? = some dgConnWhole
    · by_cases short : got.length < 2
      · refine .inr ⟨by rw [decodePartWire,if_pos short],_,_,by rw [pigeonOuter,if_pos whole],?_⟩
        rw [length_drop]
        omega
      · exact .inl (by rw [decodePartWire,if_neg short,if_pos whole,pigeonOuter,if_pos whole])
    · have parsed : pigeonOuter got = some (⟨0,0,1⟩,got) := by rw [pigeonOuter,if_neg whole,if_neg other]
      by_cases refused : got.length < 2 ∨ got.head? = some dgConnFragment
      · refine .inr ⟨?_,_,_,parsed,by omega⟩
        rcases refused with short | fragment
        · rw [decodePartWire,if_pos short]
        · have cut : got.length < 1 + fragHeaderSize := by unfold fragHeaderSize; omega
          rw [decodePartWire,if_neg whole,if_pos fragment,if_pos cut,ite_self]
      · obtain ⟨two,plain⟩ := not_or.mp refused
        exact .inl (by rw [decodePartWire,if_neg two,if_neg whole,if_neg plain,parsed])

theorem length_of_pigeonOuter {outer} (parsed : pigeonOuter got = some (outer,ct)) : ct.length ≤ got.length := by
  unfold pigeonOuter at parsed
  split at parsed
  · cases parsed
    simp
  · split at parsed
    · simp only at parsed
      split at parsed
      · cases parsed
      · cases parsed
        simp
    · cases parsed
      exact le_rfl

section
variable (aead : Aead)

variable {ch : Channel} {data : Bytes}

theorem channelDecrypt_short (short : data.length < 8 + 16) (outLen : Nat) :
    channelDecrypt aead ch data outLen = (ch,none) := by
  rw [channelDecrypt,if_pos short]

theorem channelDecrypt_buffer (ch : Channel) {one two} (room : data.length ≤ one)
    (room' : data.length ≤ two) : channelDecrypt aead ch data one = channelDecrypt aead ch data two := by
  have fits : ¬ one < data.length - 8 - 16 := by omega
  have fits' : ¬ two < data.length - 8 - 16 := by omega
  rw [channelDecrypt,channelDecrypt,if_neg fits,if_neg fits']

theorem uvarintDecode_eq {i} (early : i ≤ 9) (value : Nat) (bytes : Bytes) :
    uvarintDecode i value bytes = getUvarint i value bytes := by
  induction bytes generalizing i value with
  | nil => rfl
  | cons b rest ih =>
    have inside : i ≠ 10 := by omega
    rw [uvarintDecode,getUvarint,if_neg inside]
    by_cases last : i = 9
    · subst last
      by_cases low : b.toNat < 128
      · simp [low]
      · have large : 1 < b.toNat := by omega
        have spent : getUvarint (9 + 1) (value + (b.toNat - 128) * 128 ^ 9) rest = none := by
          cases rest <;> simp [getUvarint]
        simp only [low,large,and_self,if_true,if_false,spent]
    · have bits : ¬ 64 ≤ 7 * (i + 1) := by omega
      simp only [last,false_and,if_false,bits]
      rw [ih (by omega)]

def goChannel (ch : Channel) : Option Channel := if ch.established then some ch else none

theorem goChannel_decrypted (up : ch.established) (data : Bytes) (outLen : Nat) :
    goChannel (channelDecrypt aead ch data outLen).1 = some (channelDecrypt aead ch data outLen).1 := by
  rcases channelDecrypt_cases aead ch data outLen with same | ⟨p,-,-,-,moved⟩
  · rw [same]
    exact if_pos up
  · rw [moved]
    exact if_pos up

theorem length_of_channelDecrypt {plain outLen} (small : data.length ≤ 65535)
    (opens : (channelDecrypt aead ch data outLen).2 = some plain) : plain.length ≤ data.length := by
  rcases channelDecrypt_cases aead ch data outLen with same | ⟨p,sealed,-,-,moved⟩
  · rw [same] at opens
    cases opens
  · have long := length_of_opened aead sealed
    rw [moved] at opens
    rw [eq_of_intReturn (by omega) opens]
    omega

variable {bufLen : Nat}

theorem open_alike (up : ch.established) (small : ct.length ≤ 65535) (room : ct.length ≤ bufLen) :
    goOpen aead ch ct = decodeDatagram aead ch ct bufLen ∧
      goChannel (decodeDatagram aead ch ct bufLen).1 = some (decodeDatagram aead ch ct bufLen).1 := by
  have same : cwireDecrypt aead ch ct = channelDecrypt aead ch ct pigeonMaxMsg := by
    rw [cwireDecrypt]
    split
    next short => exact (channelDecrypt_short aead short _).symm
    next => exact channelDecrypt_buffer aead ch le_rfl (by unfold pigeonMaxMsg; omega)
  have still := goChannel_decrypted aead up ct pigeonMaxMsg
  rw [goOpen,same,decodeDatagram,up]
  cases opens : channelDecrypt aead ch ct pigeonMaxMsg with
  | mk ch' plain =>
    rw [opens] at still
    cases plain with
    | none => exact ⟨rfl,still⟩
    | some plain =>
      have short := length_of_channelDecrypt aead small (congrArg Prod.snd opens)
      refine ⟨congrArg (Prod.mk ch') ?_,still⟩
      rw [decodeDatagramPlaintext,wireDatagramPlaintextDecode,uvarintDecode_eq (by omega)]
      cases read : getUvarint 0 0 plain with
      | none => rfl
      | some part =>
        have fewer := length_of_getUvarint read
        exact (if_neg (show ¬ bufLen < part.2.length by omega)).symm

theorem incoming_alike (ch : Channel) (small : data.length ≤ 65535) (room : data.length ≤ bufLen) :
    goIncoming aead (goChannel ch) data = (goChannel (cIncoming aead ch data bufLen).1,(cIncoming aead ch data bufLen).2) := by
  cases up : ch.established with
  | false => simp [goIncoming,goChannel,cIncoming,up]
  | true =>
    have there : goChannel ch = some ch := if_pos up
    -- A part that is too short to be opened leaves the channel in the C library too.
    have unopened : ∀ {outer ct}, pigeonOuter data = some (outer,ct) → ct.length < 8 + 16 →
        cIncoming aead ch data bufLen = (ch,none) := by
      intro outer ct parsed short
      simp [cIncoming,up,parsed,decodeDatagram,channelDecrypt_short aead short]
    rw [there]
    rcases outer_alike data with same | ⟨refused,outer,ct,parsed,short⟩
    · cases parsed : pigeonOuter data with
      | none =>
        rw [parsed] at same
        simp [goIncoming,same,cIncoming,up,parsed,there]
      | some frame =>
        obtain ⟨outer,ct⟩ := frame
        rw [parsed] at same
        have shorter := length_of_pigeonOuter parsed
        by_cases empty : ct.length = 0
        · rw [unopened parsed (by omega)]
          simp [goIncoming,same,empty,there]
        · obtain ⟨alike,still⟩ := open_alike aead up (shorter.trans small) (shorter.trans room)
          have some : ¬ data.length = 0 := by omega
          simp [goIncoming,same,empty,cIncoming,up,some,parsed,alike,still]
    · rw [unopened parsed short]
      simp [goIncoming,refused,there]

/-- A frame is read back, and every datagram is read alike by both libraries up to the lookup and leaves the channel
    alike. -/
theorem frames_received_alike :
    (∀ (msgID : UInt32) (index total : UInt16) (ct : Bytes), index < total → ct ≠ [] →
      decodePartWire (encodePartWire msgID index total ct) =
        some (⟨if total = 1 then 0 else msgID.toNat,index.toNat,total.toNat⟩,ct)) ∧
    ∀ (ch : Channel) (data : Bytes) (bufLen : Nat), data.length ≤ 65535 → data.length ≤ bufLen →
      goIncoming aead (goChannel ch) data =
        (goChannel (cIncoming aead ch data bufLen).1,(cIncoming aead ch data bufLen).2) :=
  ⟨fun msgID _ _ _ inside nonempty => decode_encode msgID inside nonempty,
    fun ch _ _ small room => incoming_alike aead ch small room⟩

/-- A call of `pigeon_datagram_recv` for each datagram that arrives, with the parts returned. -/
def cReceives (id : UInt64) (bufLen : Nat) (s : Channel × List DatagramPart) (data : Bytes) : Channel × List DatagramPart :=
  match pigeonDatagramRecv aead s.1 id (some data) bufLen with
  | (ch,.part received) => (ch,s.2 ++ [received])
  | (ch,_) => (ch,s.2)

/-- The channel of a Go session at a place of its list and a C channel: same numbers, and queued is what was returned. -/
structure Mirrors (id : UInt64) (place : Nat) (s : GoReceiver) (c : Channel × List DatagramPart) : Prop where
  numbers : s.dgChannel = goChannel c.1
  queue : s.datagrams[place]? = some (id.toNat,c.2)

variable {place : Nat} {s : GoReceiver} {c : Channel × List DatagramPart}

theorem deliver_alike {id} (alike : Mirrors id place s c)
    (small : data.length ≤ 65535) (room : data.length ≤ bufLen) (free : c.2.length < 64) :
    Mirrors id place (deliverIncomingDatagram aead s data) (cReceives aead id bufLen c data) ∧
      (cReceives aead id bufLen c data).2.length ≤ c.2.length + 1 := by
  have queue := alike.queue
  rw [deliverIncomingDatagram,alike.numbers,incoming_alike aead c.1 small room,cReceives,pigeonDatagramRecv]
  obtain ⟨ch,incoming⟩ := cIncoming aead c.1 data bufLen
  cases incoming with
  | none => exact ⟨⟨rfl,queue⟩,Nat.le_succ _⟩
  | some incoming =>
    by_cases own : incoming.channelId = id.toNat
    · simp only [own,if_true]
      refine ⟨⟨rfl,?_⟩,by simp⟩
      rw [getElem?_map,queue]
      simp [free]
    · simp only [own,if_false]
      refine ⟨⟨rfl,?_⟩,Nat.le_succ _⟩
      rw [getElem?_map,queue]
      simp [Ne.symm own]

end

def thirdPart : Bytes := encodePartWire 7 2 3 (packet checked keyA 5 (encodeDatagramPlaintext 9 [104,105]))
def receiving : Channel := channelInit keyB keyA .datagrams

theorem part_received_alike : decodePartWire (encodePartWire 7 2 3 [1]) = some (⟨7,2,3⟩,[1]) ∧
      (goIncoming checked (goChannel receiving) thirdPart).2 = some ⟨⟨7,2,3⟩,9,[104,105]⟩ ∧
      (cIncoming checked receiving thirdPart 100).2 = some ⟨⟨7,2,3⟩,9,[104,105]⟩ := by
  have delivered : (cIncoming checked receiving thirdPart 100).2 = some ⟨⟨7,2,3⟩,9,[104,105]⟩ := by decide +kernel
  refine ⟨(frames_received_alike checked).1 7 2 3 [1] (by decide) (by decide),?_,delivered⟩
  rw [(frames_received_alike checked).2 receiving thirdPart 100 (by decide +kernel) (by decide +kernel)]
  simpa only using delivered

section
variable (aead : Aead)

theorem pigeonEncodeDatagram_eq_some_iff {ch id payload wire outLen} :
    (pigeonEncodeDatagram aead ch id payload outLen).2 = some wire ↔ ch.established ∧ payload.length ≤ pigeonMaxMsg ∧
        8 + (encodeDatagramPlaintext id payload).length + 16 ≤ outLen ∧
        wire = packet aead ch.sendKey ch.sendSeq (encodeDatagramPlaintext id payload) := by
  cases up : ch.established with
  | false => simp [pigeonEncodeDatagram,up]
  | true =>
    by_cases small : payload.length ≤ pigeonMaxMsg
    · have varint := length_putUvarint_le 9 id.toNat
      have length : (encodeDatagramPlaintext id payload).length = (putUvarint 9 id.toNat).length + payload.length :=
        length_append
      have short : (encodeDatagramPlaintext id payload).length + 24 < 2 ^ 31 := by
        simp only [pigeonMaxMsg] at small
        omega
      have sealed : pigeonEncodeDatagram aead ch id payload outLen =
          channelEncrypt aead ch (encodeDatagramPlaintext id payload) outLen := by
        simp [pigeonEncodeDatagram,up,encodeDatagram,Nat.not_lt.mpr small,wireDatagramPlaintextEncode_room small]
      rw [sealed]
      by_cases room : 8 + (encodeDatagramPlaintext id payload).length + 16 ≤ outLen
      · simp [channelEncrypt_room aead (Nat.not_lt.mpr room) short,small,room,eq_comm]
      · simp [channelEncrypt_refused aead (Nat.not_le.mp room),room]
    · simp [pigeonEncodeDatagram,up,encodeDatagram,Nat.not_le.mp small,small]

theorem wireDatagramPlaintextDecode_encode (id : UInt64) (payload : Bytes) :
    wireDatagramPlaintextDecode (encodeDatagramPlaintext id payload) payload.length = some (id.toNat,payload) := by
  have read := getUvarint_putUvarint (show 0 + 9 = 9 from rfl) (by simpa using id.toNat_lt) 0 payload
  simp only [Nat.zero_add,pow_zero,Nat.mul_one] at read
  rw [wireDatagramPlaintextDecode,uvarintDecode_eq (by omega),encodeDatagramPlaintext,read]
  simp

theorem decodeDatagram_packet {receiver seq} (up : receiver.established)
    (admitted : admits receiver.mode receiver.recvSeq seq) (plain : Bytes) (payloadBufLen : Nat) :
    (decodeDatagram aead receiver (packet aead receiver.recvKey seq plain) payloadBufLen).2 =
      if pigeonMaxMsg < plain.length then none else wireDatagramPlaintextDecode plain payloadBufLen := by
  by_cases large : pigeonMaxMsg < plain.length
  · simp [decodeDatagram,up,channelDecrypt,admitted,large]
  · have short : plain.length < 2 ^ 31 := by
      simp only [pigeonMaxMsg] at large
      omega
    simp [decodeDatagram,up,channelDecrypt_packet aead admitted (Nat.not_lt.mp large),intReturn_of_lt short,large]

/-- A datagram comes back just when its plaintext fits the buffer that it is opened into. -/
theorem datagram_comes_back_iff (sender receiver : Channel) (id : UInt64) (payload : Bytes) (outLen : Nat) {wire : Bytes}
    (accepted : (pigeonEncodeDatagram aead sender id payload outLen).2 = some wire)
    (peer : receiver.recvKey = sender.sendKey) (up : receiver.established = true)
    (admitted : admits receiver.mode receiver.recvSeq sender.sendSeq = true) :
    (decodeDatagram aead receiver wire payload.length).2 = some (id.toNat,payload) ↔
      (putUvarint 9 id.toNat).length + payload.length ≤ pigeonMaxMsg := by
  obtain ⟨-,-,-,rfl⟩ := (pigeonEncodeDatagram_eq_some_iff aead).mp accepted
  have length : (encodeDatagramPlaintext id payload).length = (putUvarint 9 id.toNat).length + payload.length :=
    length_append
  rw [← peer,decodeDatagram_packet aead up admitted,length,wireDatagramPlaintextDecode_encode]
  split
  next large => simpa using large
  next fits => simpa using fits

end

theorem greeting_comes_back : (putUvarint 9 (9 : UInt64).toNat).length + [104,105].length ≤ pigeonMaxMsg ∧
      (decodeDatagram checked receiving (packet checked keyA 0 (encodeDatagramPlaintext 9 [104,105])) 2).2 =
        some (9,[104,105]) := by
  refine ⟨by decide,?_⟩
  exact (datagram_comes_back_iff checked (channelInit keyA keyB .datagrams) receiving 9 [104,105] 27
    (by decide +kernel) rfl rfl rfl).mpr (by decide)

/-- A payload of `PIGEON_MAX_MSG` octets is accepted, and with the octet of the channel id it is too long for the
    peer. -/
theorem largest_payload_lost : ∃ wire : Bytes,
    (pigeonEncodeDatagram checked (channelInit keyA keyB .datagrams) 0 (replicate pigeonMaxMsg 0)
      (pigeonMaxMsg + 64)).2 = some wire ∧
    (decodeDatagram checked receiving wire (replicate pigeonMaxMsg (0 : UInt8)).length).2 = none := by
  have long : (encodeDatagramPlaintext 0 (replicate pigeonMaxMsg 0)).length = pigeonMaxMsg + 1 := by
    have octet : (putUvarint 9 (0 : UInt64).toNat).length = 1 := by decide
    rw [encodeDatagramPlaintext,length_append,length_replicate,octet,Nat.add_comm]
  refine ⟨_,(pigeonEncodeDatagram_eq_some_iff checked).mpr ⟨rfl,length_replicate.le,by omega,rfl⟩,?_⟩
  exact (decodeDatagram_packet checked rfl rfl _ _).trans (if_pos (by omega))

theorem head_packet (aead : Aead) (key : Key) (seq : UInt64) (plaintext : Bytes) :
    (packet aead key seq plaintext).head? = some (UInt8.ofNat seq.toNat) := rfl

theorem pigeonOuter_whole_iff (long : 1 + fragHeaderSize ≤ got.length) :
    pigeonOuter got = some (⟨0,0,1⟩,got) ↔ got.head? ≠ some dgConnWhole ∧ got.head? ≠ some dgConnFragment := by
  have shorter : ∀ {n : Nat} {outer : Outer}, 0 < n → some (outer,got.drop n) ≠ some (⟨0,0,1⟩,got) := by
    intro n outer positive same
    have lengths := congrArg (fun frame => frame.map (·.2.length)) same
    simp only [Option.map_some,length_drop,Option.some.injEq] at lengths
    omega
  constructor
  · intro parsed
    refine ⟨fun whole => ?_,fun fragment => ?_⟩
    · rw [pigeonOuter,if_pos whole] at parsed
      exact shorter (by decide) parsed
    · have other : got.head? ≠ some dgConnWhole := by rw [fragment]; decide
      rw [pigeonOuter,if_neg other,if_pos ⟨long,fragment⟩] at parsed
      simp only at parsed
      split at parsed
      · cases parsed
      · exact shorter (by decide) parsed
  · rintro ⟨whole,fragment⟩
    rw [pigeonOuter,if_neg whole,if_neg (fun both => fragment both.2)]

/-- A datagram without the outer octet is taken whole just when the low octet of its number is neither of the two of
    the frames. -/
theorem unframed_whole_iff (aead : Aead) (key : Key) (seq : UInt64) (plaintext : Bytes) :
    (decodePartWire (packet aead key seq plaintext) = some (⟨0,0,1⟩,packet aead key seq plaintext) ↔
      seq.toNat % 256 ≠ 0 ∧ seq.toNat % 256 ≠ 64) ∧
    (pigeonOuter (packet aead key seq plaintext) = some (⟨0,0,1⟩,packet aead key seq plaintext) ↔
      seq.toNat % 256 ≠ 0 ∧ seq.toNat % 256 ≠ 64) := by
  have long : 1 + fragHeaderSize ≤ (packet aead key seq plaintext).length := by
    rw [packet_length]
    unfold fragHeaderSize
    omega
  have octet : ∀ b : UInt8, (packet aead key seq plaintext).head? = some b ↔ seq.toNat % 256 = b.toNat := by
    intro b
    rw [head_packet,Option.some.injEq,← UInt8.toNat_inj,UInt8.toNat_ofNat']
  have parsed := pigeonOuter_whole_iff long
  rw [ne_eq,ne_eq,octet,octet] at parsed
  exact ⟨by rw [outer_eq long]; exact parsed,parsed⟩

def unframed (seq : UInt64) : Bytes := packet checked keyA seq (encodeDatagramPlaintext 9 [104,105])

/-- Number 0 is lost by both libraries and 64 taken for a fragment; number 1 arrives. -/
theorem first_unframed_lost : (decodePartWire (unframed 0) = some (⟨0,0,1⟩,(unframed 0).drop 1) ∧
      pigeonOuter (unframed 0) = some (⟨0,0,1⟩,(unframed 0).drop 1)) ∧
    ((goIncoming checked (goChannel receiving) (unframed 0)).2 = none ∧
      (cIncoming checked receiving (unframed 0) 100).2 = none) ∧
    (decodePartWire (unframed 64) = some (⟨0,0,9⟩,(unframed 64).drop 9) ∧
      pigeonOuter (unframed 64) = some (⟨0,0,9⟩,(unframed 64).drop 9)) ∧
    (cIncoming checked receiving (unframed 1) 100).2 = some ⟨⟨0,0,1⟩,9,[104,105]⟩ := by
  decide +kernel

end Pigeon.DatagramRecv
