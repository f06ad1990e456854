import Pigeon.GoEndpoint
import Pigeon.Transports

/-!
A Go session and a session of the C library with each other's keys (`api.go`, `pigeon.c`,
`listener.c`). C counts messages for each stream object, Go for each name. So every message is
accepted as long as no name is used twice, and not otherwise (`interop_accepts_iff`).
-/
namespace Pigeon.Interop
open Octets Runs Sealing Crypto Framing Delivery Transports List Function
open KeySchedule (SessionMaterial forkKey streamInfo ascii diversifyKey diversifyKey_eq)
open scoped KeySchedule
open CSession (Session Stream bindAead streamAead openStream acceptIncoming streamSend pigeonMaxMsg
  pigeonMaxNameLen)
open SessionPair (Side)
open Multiplex (Endpoint Matched Fits Accepts idle accepts_run shared_counter_rejects inv_idle)
open GoEndpoint (goEndpoint opens sealable)

def cName (name : Bytes) : Bool := !name.isEmpty && decide (name.length < pigeonMaxNameLen) && decide (cstr name = name)

section
variable (aead : Aead) (hmac : Bytes → Bytes → Key)

def sealedBy (s : Session) (i : Nat) (msg : Bytes) : Option Bytes :=
  match s.streams[i]? with
  | none => none
  | some st =>
    match st.aead with
    | none => some msg
    | some ch => (channelSeal aead ch msg (pigeonMaxMsg + 64)).2

def written (data : Bytes) : Option Bytes :=
  if (rawSendOnStream [] data).2 then some (rawSendOnStream [] data).1 else none

/-- `pigeon_stream_send`, given whether the stream takes octets. -/
def put (s : Session) (i : Nat) (msg : Bytes) (up : Bool) : Session × Option Bytes :=
  ((streamSend aead s i msg).1,if up then (sealedBy aead s i msg).bind written else none)

/-- `pigeon_stream_recv` into a buffer of `bufLen` octets, from the octets that have arrived. -/
def streamRecv (s : Session) (i : Nat) (arrived : Bytes) (bufLen : Nat) : (Session × Bytes) × Option Bytes :=
  match s.streams[i]? with
  | none => ((s,arrived),none)
  | some st =>
    match st.aead with
    | none => ((s,(rawRecvOnStream arrived bufLen).1),(rawRecvOnStream arrived bufLen).2)
    | some ch =>
      match rawRecvOnStream arrived (pigeonMaxMsg + 64) with
      | (rest,none) => ((s,rest),none)
      | (rest,some data) =>
        (({ s with streams := s.streams.set i { st with aead := some (channelDecrypt aead ch data bufLen).1 } },rest),
          (channelDecrypt aead ch data bufLen).2)

def counterOf (seq : Channel → UInt64) (s : Session) (i : Nat) : UInt64 :=
  ((s.streams[i]?.bind Stream.aead).map seq).getD 0

variable (m : SessionMaterial)

structure Holds (names : List Bytes) (s : Session) : Prop where
  keys : s.keys = some m
  streams : s.streams.map Stream.name = names
  keyed : ∀ st ∈ s.streams, ∃ ch, st.aead = some ch ∧ ch.mode = .strict ∧
    ch.sendKey = forkKey hmac m.sendKey (streamInfo st.name) ∧ ch.recvKey = forkKey hmac m.recvKey (streamInfo st.name)

variable {aead hmac m} {names : List Bytes} {s : Session}

variable {seq : Channel → UInt64} {st : Stream} {ch : Channel}

theorem counterOf_held {i} (here : s.streams[i]? = some st)
    (channel : st.aead = some ch) : counterOf seq s i = seq ch := by
  rw [counterOf,here,Option.bind_some,channel]
  rfl

theorem counterOf_set {i} (here : s.streams[i]? = some st) (ch : Channel) (log : List (Key × Bytes)) :
    counterOf seq { s with streams := s.streams.set i { st with aead := some ch }, log := log } =
      update (counterOf seq s) i (seq ch) := by
  funext j
  by_cases same : j = i
  · subst same
    rw [update_self]
    exact counterOf_held (Sequence.getElem?_set_found here) rfl
  · rw [update_of_ne same,counterOf,getElem?_set_ne (Ne.symm same)]
    rfl

theorem holds_start (primary : Bool) : Holds hmac m [] (CSession.newSession m primary) :=
  ⟨rfl,rfl,by simp [CSession.newSession]⟩

theorem cName_iff {name} : cName name ↔ name ≠ [] ∧ name.length < pigeonMaxNameLen ∧ cstr name = name := by
  simp [cName,and_assoc]

section
variable {name : Bytes} (named : cName name = true)
include named

theorem header_of_cName : encodeStreamHeader name = UInt8.ofNat name.length :: name := by
  obtain ⟨-,short,-⟩ := cName_iff.mp named
  have small : name.length < 128 := by unfold pigeonMaxNameLen at short; omega
  rw [encodeStreamHeader,putUvarint,if_pos small]
  rfl

theorem header_length_of_cName : (encodeStreamHeader name).length ≤ 64 := by
  obtain ⟨-,short,-⟩ := cName_iff.mp named
  rw [header_of_cName named,length_cons]
  exact short

theorem header_fits : ¬ CSession.pigeonMaxStreamHeader < (encodeStreamHeader name).length := by
  have := header_length_of_cName named
  unfold CSession.pigeonMaxStreamHeader
  omega

theorem openStream_binds : openStream hmac s name true true = bindAead hmac s name := by
  obtain ⟨nonempty,short,whole⟩ := cName_iff.mp named
  have inside : ¬ pigeonMaxNameLen ≤ name.length := Nat.not_le.mpr short
  simp [openStream,whole,nonempty,inside,wireStreamHeaderEncode,header_fits named]

theorem opens_of_cName : opens name := by
  obtain ⟨nonempty,-,-⟩ := cName_iff.mp named
  have small : (encodeStreamHeader name).length ≤ maxMessageSize := by
    have := header_length_of_cName named
    unfold maxMessageSize
    omega
  simp [opens,nonempty,GoEndpoint.writeMessage_small small]

theorem sealable_of_cName : sealable name := by
  obtain ⟨-,short,-⟩ := cName_iff.mp named
  exact decide_eq_true (by unfold pigeonMaxNameLen at short; omega)

end

theorem bindAead_named (keys : s.keys = some m) {name} (named : cName name) :
    bindAead hmac s name = ({ s with streams := s.streams ++ [CSession.bound hmac m name] },true) := by
  obtain ⟨-,short,whole⟩ := cName_iff.mp named
  have inside : (cstr name).length < pigeonMaxNameLen := by rwa [whole]
  simp only [bindAead,keys,CSession.streamAead_eq hmac m inside,whole]
  rfl

theorem hand_holds (holds : Holds hmac m names s) {name} (named : cName name) :
    Holds hmac m (names ++ [name]) (openStream hmac s name true true).1 ∧
      ∀ seq : Channel → UInt64, (∀ sk rk, seq (channelInit sk rk .strict) = 0) →
        counterOf seq (openStream hmac s name true true).1 = counterOf seq s := by
  rw [openStream_binds named,bindAead_named holds.keys named]
  refine ⟨⟨holds.keys,?_,?_⟩,?_⟩
  · simp [holds.streams,CSession.bound]
  · exact Sequence.forall_mem_snoc.mpr ⟨holds.keyed,⟨_,rfl,rfl,rfl,rfl⟩⟩
  · intro seq zero
    funext j
    simp only [counterOf,getElem?_append]
    split
    · rfl
    · rename_i outside
      rw [getElem?_eq_none (Nat.not_lt.mp outside),getElem?_singleton]
      split
      · exact zero _ _
      · rfl

variable {j : Nat}

theorem object_of_holds (holds : Holds hmac m names s) {name} (here : names[j]? = some name) :
    ∃ st ch, s.streams[j]? = some st ∧ st.aead = some ch ∧ ch.mode = .strict ∧
      ch.sendKey = forkKey hmac m.sendKey (streamInfo name) ∧ ch.recvKey = forkKey hmac m.recvKey (streamInfo name) := by
  rw [← holds.streams,getElem?_map,Option.map_eq_some_iff] at here
  obtain ⟨st,found,rfl⟩ := here
  obtain ⟨ch,keyed⟩ := holds.keyed st (mem_of_getElem? found)
  exact ⟨st,ch,found,keyed⟩

theorem holds_set (holds : Holds hmac m names s) {ch' log}
    (here : s.streams[j]? = some st) (channel : st.aead = some ch) (sendKey : ch'.sendKey = ch.sendKey)
    (recvKey : ch'.recvKey = ch.recvKey) (mode : ch'.mode = ch.mode) :
    Holds hmac m names { s with streams := s.streams.set j { st with aead := some ch' }, log := log } := by
  refine ⟨holds.keys,?_,?_⟩
  · rw [← holds.streams]
    exact Sequence.map_set_same Stream.name here rfl
  · intro other mem
    rcases mem_or_eq_of_mem_set mem with old | rfl
    · exact holds.keyed other old
    · obtain ⟨held,same,strict,sends,recvs⟩ := holds.keyed st (mem_of_getElem? here)
      cases (channel.symm.trans same : some ch = some held)
      exact ⟨ch',rfl,mode.trans strict,sendKey.trans sends,recvKey.trans recvs⟩

theorem written_small {data} (small : data.length ≤ maxMessageSize) : written data = some (frame data) := by
  have taken : ¬ pigeonMaxMsg < data.length := Nat.not_lt.mpr small
  simp [written,rawSendOnStream,taken]

theorem put_packet (holds : Holds hmac m names s) {name} (here : names[j]? = some name) {msg}
    (within : msg.length + 24 ≤ maxMessageSize) (up : Bool) : Holds hmac m names (put aead s j msg up).1 ∧
    (put aead s j msg up).2 =
      (if up then some (frame (packet aead (forkKey hmac m.sendKey (streamInfo name)) (counterOf Channel.sendSeq s j) msg))
        else none) ∧
    counterOf Channel.sendSeq (put aead s j msg up).1 =
      update (counterOf Channel.sendSeq s) j (counterOf Channel.sendSeq s j + 1) ∧
    counterOf Channel.recvSeq (put aead s j msg up).1 = counterOf Channel.recvSeq s := by
  obtain ⟨st,ch,found,channel,-,key,-⟩ := object_of_holds holds here
  have limit : msg.length ≤ pigeonMaxMsg + 40 := by unfold maxMessageSize at within; unfold pigeonMaxMsg; omega
  have room : ¬ pigeonMaxMsg + 64 < 8 + msg.length + 16 := by omega
  have counter : ∀ seq : Channel → UInt64, counterOf seq s j = seq ch := fun _ => counterOf_held found channel
  have sealed : sealedBy aead s j msg = some (packet aead ch.sendKey ch.sendSeq msg) := by
    simp [sealedBy,found,channel,channelSeal,room]
  have small : (packet aead ch.sendKey ch.sendSeq msg).length ≤ maxMessageSize := by rw [packet_length]; exact within
  simp only [put,CSession.streamSend_eq aead found channel limit,sealed,Option.bind_some,written_small small]
  refine ⟨holds_set holds found channel rfl rfl rfl,?_,?_,?_⟩
  · rw [counter,key]
  · rw [counterOf_set found,counter]
  · rw [counterOf_set found,← counter Channel.recvSeq,update_eq_self]

theorem rawRecv_frame {data} (small : data.length ≤ maxMessageSize) (rest : Bytes) :
    rawRecvOnStream (frame data ++ rest) (pigeonMaxMsg + 64) = (rest,some data) := by
  have fits : ofBe ((frame data ++ rest).take 4) ≤ pigeonMaxMsg + 64 := by
    rw [ofBe_frame small]
    exact Nat.le_add_right_of_le small
  rw [rawRecvOnStream_eq fits]
  exact readMessage_frame small rest

variable {p : Bytes}

theorem recv_packet (found : s.streams[j]? = some st) (channel : st.aead = some ch) (strict : ch.mode = .strict)
    (within : p.length + 24 ≤ maxMessageSize) (seq : UInt64) (rest : Bytes) (bufLen : Nat) :
    streamRecv aead s j (frame (packet aead ch.recvKey seq p) ++ rest) bufLen =
      if seq = ch.recvSeq ∧ p.length ≤ bufLen then
        (({ s with streams := s.streams.set j { st with aead := some { ch with recvSeq := seq + 1 } } },rest),some p)
      else (({ s with streams := s.streams.set j { st with aead := some ch } },rest),none) := by
  have limit : p.length < 2 ^ 31 := by unfold maxMessageSize at within; omega
  have raw : rawRecvOnStream (frame (packet aead ch.recvKey seq p) ++ rest) (pigeonMaxMsg + 64) = _ :=
    rawRecv_frame (by rw [packet_length]; exact within) rest
  have opens : channelDecrypt aead ch (packet aead ch.recvKey seq p) bufLen = _ :=
    channelDecrypt_strict strict limit seq bufLen
  simp only [streamRecv,found,channel,raw,opens]
  split
  · rfl
  · rfl

section
variable {name : Bytes} (holds : Holds hmac m names s) (here : names[j]? = some name)
  (within : p.length + 24 ≤ maxMessageSize)
include holds here within

theorem recv_expected {bufLen} (room : p.length ≤ bufLen) (rest : Bytes) :
    ∃ s', streamRecv aead s j (frame (packet aead (forkKey hmac m.recvKey (streamInfo name))
        (counterOf Channel.recvSeq s j) p) ++ rest) bufLen = ((s',rest),some p) ∧
      Holds hmac m names s' ∧ counterOf Channel.sendSeq s' = counterOf Channel.sendSeq s ∧
      counterOf Channel.recvSeq s' = update (counterOf Channel.recvSeq s) j (counterOf Channel.recvSeq s j + 1) := by
  obtain ⟨st,ch,found,channel,strict,-,key⟩ := object_of_holds holds here
  have counter : ∀ seq : Channel → UInt64, counterOf seq s j = seq ch := fun _ => counterOf_held found channel
  refine ⟨{ s with streams := s.streams.set j { st with aead := some { ch with recvSeq := ch.recvSeq + 1 } } },?_,
    holds_set holds found channel rfl rfl rfl,?_,?_⟩
  · rw [← key,counter,recv_packet found channel strict within ch.recvSeq rest bufLen,if_pos ⟨rfl,room⟩]
  · exact (counterOf_set found _ s.log).trans (by rw [← counter Channel.sendSeq,update_eq_self])
  · exact (counterOf_set found _ s.log).trans (by rw [counter])

theorem recv_unexpected {seq} (unexpected : seq ≠ counterOf Channel.recvSeq s j) (rest : Bytes) (bufLen : Nat) :
    (streamRecv aead s j (frame (packet aead (forkKey hmac m.recvKey (streamInfo name)) seq p) ++ rest) bufLen).2 =
      none := by
  obtain ⟨st,ch,found,channel,strict,-,key⟩ := object_of_holds holds here
  rw [counterOf_held found channel] at unexpected
  rw [← key,recv_packet found channel strict within seq rest bufLen,if_neg (fun both => unexpected both.1)]

end

theorem recv_nothing (s : Session) (j bufLen : Nat) : streamRecv aead s j [] bufLen = ((s,[]),none) := by
  have raw : ∀ n, rawRecvOnStream [] n = ([],none) := fun _ => rfl
  unfold streamRecv
  split
  · rfl
  · split
    · simp [raw]
    · simp [raw]

end

/-- An activated session of the C library, for names without a NUL. A stream that it accepts is bound by `bindAead`, as
    one that it opens is (`openStream_binds`). -/
def cEndpoint (aead : Aead) (hmac : Bytes → Bytes → Key) (m : SessionMaterial) : Endpoint aead where
  State := Session
  Counter := Nat
  decEq := inferInstance
  start := CSession.newSession m false
  hand s name := (openStream hmac s name true true).1
  send := put aead
  recv := streamRecv aead
  admits := cName
  secured _ := true
  fits n bufLen := decide (n ≤ bufLen)
  counter _ j := j
  sendSeq := counterOf Channel.sendSeq
  recvSeq := counterOf Channel.recvSeq
  sendKey name := forkKey hmac m.sendKey (streamInfo name)
  recvKey name := forkKey hmac m.recvKey (streamInfo name)
  Holds := Holds hmac m
  counter_apart same := .inr same
  holds_start := holds_start false
  sendSeq_start _ := rfl
  recvSeq_start _ := rfl
  hand_holds holds named :=
    ⟨(hand_holds holds named).1,(hand_holds holds named).2 _ (fun _ _ => rfl),
      (hand_holds holds named).2 _ (fun _ _ => rfl)⟩
  send_secured _ up holds here _ within := put_packet holds here within up
  send_clear _ _ _ clear := absurd clear (by decide)
  recv_expected rest holds here _ within room := recv_expected holds here within (of_decide_eq_true room) rest
  recv_unexpected rest bufLen holds here _ within unexpected :=
    recv_unexpected holds here within unexpected rest bufLen
  recv_clear _ _ _ clear := absurd clear (by decide)
  recv_nothing := recv_nothing

def mixedPair (aead : Aead) (hmac : Bytes → Bytes → Key) (m : SessionMaterial) : Side → Endpoint aead
  | .near => goEndpoint aead hmac m
  | .far => cEndpoint aead hmac m.swap

section
variable {aead : Aead} {hmac : Bytes → Bytes → Key} {m : SessionMaterial}

theorem mixedPair_matched : Matched (mixedPair aead hmac m) := by
  refine ⟨?_,?_⟩
  · intro rx tx name admits admits'
    cases rx with
    | near =>
      cases tx with
      | near => rfl
      | far => exact (sealable_of_cName admits').symm
    | far =>
      cases tx with
      | near => exact sealable_of_cName admits
      | far => rfl
  · intro rx tx name apart _ _
    obtain rfl := Multiplex.eq_other apart
    cases rx with
    | near | far => rfl

theorem mixedPair_secret (name : Bytes) : Multiplex.secret (mixedPair aead hmac m) name := Bool.or_true _

/-- Whatever a Go and a C session open, exchange and close: every message is accepted, unless a name is used twice. -/
theorem interop_accepts_iff {names : List Bytes} (named : ∀ name ∈ names, cName name = true) :
    (∀ events, Multiplex.opened events = names → Along Multiplex.step Fits (idle (mixedPair aead hmac m)) events →
      Along Multiplex.step Accepts (idle (mixedPair aead hmac m)) events) ↔ names.Nodup := by
  have all : names.filter (Multiplex.secret (mixedPair aead hmac m)) = names :=
    filter_eq_self.mpr (fun name _ => mixedPair_secret name)
  constructor
  · intro accepts
    by_contra repeated
    rw [← all] at repeated
    obtain ⟨i,i',name,here,there,apart,-⟩ := Multiplex.repeated_of_not_distinct repeated
    have held := named name (mem_of_getElem? here)
    obtain ⟨events,same,fits,rejects⟩ := shared_counter_rejects mixedPair_matched here there apart
      (fun name mem => opens_of_cName (named name mem)) held (sealable_of_cName held) rfl rfl
    exact rejects (accepts events same fits)
  · intro distinct events same fits
    refine accepts_run mixedPair_matched inv_idle ?_ fits
    rw [idle,map_nil,nil_append,same,all]
    exact distinct

end

theorem chat_and_video_interoperate : (∀ name ∈ [ascii "chat",ascii "video"], cName name = true) ∧
    ∀ events, Multiplex.opened events = ["chat","video"] →
      Along Multiplex.step Fits (idle (mixedPair checked mixed GoEndpoint.material)) events →
      Along Multiplex.step Accepts (idle (mixedPair checked mixed GoEndpoint.material)) events :=
  ⟨by decide,(interop_accepts_iff (by decide)).mpr (by decide)⟩

/-- A stream opened again under its name, with either side writing; and one under a name with a NUL in it. -/
theorem chat_again_rejected :
    (let run := final Multiplex.step (idle (mixedPair checked mixed GoEndpoint.material))
      [.connect .near "chat",.accept .far 0,.send .near 0 [1],.recv .far 0 16,.closeWrite .near 0,
        .connect .near "chat",.accept .far 1,.send .near 1 [2]]
     run.next .far 1 = some [2] ∧ (Multiplex.step run (.recv .far 1 16)).2 = none) ∧
    (let run := final Multiplex.step (idle (mixedPair checked mixed GoEndpoint.material))
      [.connect .near "chat",.accept .far 0,.send .far 0 [1],.recv .near 0 16,.closeWrite .near 0,
        .connect .near "chat",.accept .far 1,.send .far 1 [2]]
     run.next .near 1 = some [2] ∧ (Multiplex.step run (.recv .near 1 16)).2 = none) ∧
    (let go := GoSession.hand mixed (GoSession.newSession mixed (some GoEndpoint.material) none false false).keys [97,0,98]
     let c := acceptIncoming mixed (CSession.newSession GoEndpoint.material.swap false) [97]
      [some (encodeStreamHeader [97,0,98])]
     c.2 = true ∧ (GoSession.send checked go 0 [1] true).2.wire.map (fun octets => (streamRecv checked c.1 0 octets 16).2) =
      some none) := by
  decide +kernel

end Pigeon.Interop
