import Pigeon.Multiplex

/-!
The Go session as an end of many streams (`api.go`). Streams of one name share a counter, on
whichever connection they run. Between two Go sessions every message that arrives is accepted
if and only if no two encrypted streams were opened under one name (`streams_accept_iff`).
-/
namespace Pigeon.GoEndpoint
open Octets Runs Sequence Sealing Crypto Framing Delivery List Function
open KeySchedule (SessionMaterial forkKey streamInfo ascii)
open scoped KeySchedule
open GoSession (Keyring Bound Held hand cwireEncrypt cwireDecrypt cwireEncrypt_state cwireEncrypt_result
  streamChannel_cases bound_hand bound_set bound_new newSession)
open SessionPair (Side materialOf name_unique)
open Multiplex (Endpoint Matched Fits Accepts idle accepts_run shared_counter_rejects inv_idle)

def channelOf (k : Keyring) (name : Bytes) : Option Channel :=
  (k.streamChans.find? (·.1 = name)).map Prod.snd

def counterOf (seq : Channel → UInt64) (k : Keyring) (name : Bytes) : UInt64 :=
  ((channelOf k name).map seq).getD 0

variable {name p : Bytes} {ch : Channel} {a j : Nat}

theorem channelOf_held {k} (once : (SessionPair.names k).Nodup) (held : k.streamChans[a]? = some (name,ch)) :
    channelOf k name = some ch := by
  have found : k.streamChans.find? (·.1 = name) = some (name,ch) := by
    refine find?_of_unique (mem_of_getElem? held) (by simp) ?_
    intro entry mem same
    have named : entry.1 = name := by simpa using same
    obtain ⟨b,there⟩ := mem_iff_getElem?.mp mem
    obtain ⟨_,ch'⟩ := entry
    subst named
    obtain rfl := name_unique once held there
    exact Option.some.inj (there.symm.trans held)
  rw [channelOf,found]
  rfl

theorem channelOf_absent {k} (absent : name ∉ SessionPair.names k) : channelOf k name = none := by
  have none : k.streamChans.find? (·.1 = name) = none := by
    refine find?_eq_none.mpr ?_
    intro entry mem same
    exact absent (mem_map.mpr ⟨entry,mem,by simpa using same⟩)
  rw [channelOf,none]
  rfl

section
variable {k : Keyring} (once : (SessionPair.names k).Nodup) (held : k.streamChans[a]? = some (name,ch))
include once held

theorem channelOf_set (ch' : Channel) : channelOf { k with streamChans := k.streamChans.set a (name,ch') } =
      update (channelOf k) name (some ch') := by
  have names : SessionPair.names { k with streamChans := k.streamChans.set a (name,ch') } = SessionPair.names k :=
    SessionPair.names_set held ch'
  have once' : (SessionPair.names { k with streamChans := k.streamChans.set a (name,ch') }).Nodup := by
    rw [names]; exact once
  funext other
  by_cases same : other = name
  · subst same
    rw [update_self]
    exact channelOf_held once' (getElem?_set_found held)
  · rw [update_of_ne same]
    by_cases known : other ∈ SessionPair.names k
    · obtain ⟨entry,mem,named⟩ := mem_map.mp known
      obtain ⟨b,there⟩ := mem_iff_getElem?.mp mem
      obtain ⟨_,kept⟩ := entry
      subst named
      have apart : a ≠ b := by
        rintro rfl
        cases (held.symm.trans there : some (name,ch) = some _)
        exact same rfl
      rw [channelOf_held once there]
      exact channelOf_held once' (by rw [getElem?_set_ne apart]; exact there)
    · rw [channelOf_absent known,channelOf_absent (by rw [names]; exact known)]

theorem counterOf_set {seq} (ch' : Channel) : counterOf seq { k with streamChans := k.streamChans.set a (name,ch') } =
      update (counterOf seq k) name (seq ch') := by
  funext other
  rw [counterOf,channelOf_set once held]
  by_cases same : other = name
  · subst same
    simp
  · rw [update_of_ne same,update_of_ne same]
    rfl

theorem counterOf_held {seq} : counterOf seq k name = seq ch := by
  rw [counterOf,channelOf_held once held]
  rfl

end

section
variable (aead : Aead) (hmac : Bytes → Bytes → Key) (m : SessionMaterial)

structure Holds (names : List Bytes) (k : Keyring) : Prop where
  bound : Bound hmac m k
  once : (SessionPair.names k).Nodup
  strict : ∀ entry ∈ k.streamChans, entry.2.mode = .strict
  streams : k.streams.map GoSession.Stream.name = names

variable {aead hmac m} {names : List Bytes} {k : Keyring}

theorem holds_start : Holds hmac m [] (newSession hmac (some m) none false false).keys :=
  ⟨bound_new m none false false,nodup_nil,by simp [newSession],rfl⟩

theorem counterOf_append (seq : Channel → UInt64) {streams} (fresh : name ∉ SessionPair.names k) (zero : seq ch = 0) :
    counterOf seq { k with streamChans := k.streamChans ++ [(name,ch)], streams := streams } = counterOf seq k := by
  funext other
  have absent := channelOf_absent fresh
  simp only [channelOf,Option.map_eq_none_iff] at absent
  simp only [counterOf,channelOf,find?_append]
  by_cases same : name = other
  · subst same
    simp [absent,zero]
  · simp [same]

section
variable (holds : Holds hmac m names k)
include holds

theorem hand_unchanged {ch} (same : GoSession.streamChannel hmac k name = (k,ch)) :
    Holds hmac m (names ++ [name]) (hand hmac k name) ∧
      ∀ seq : Channel → UInt64, (∀ sk rk, seq (channelInit sk rk .strict) = 0) →
        counterOf seq (hand hmac k name) = counterOf seq k := by
  refine ⟨⟨bound_hand holds.bound name,?_,?_,?_⟩,?_⟩
  · simp only [hand,same]
    exact holds.once
  · simp only [hand,same]
    exact holds.strict
  · simp [hand,same,holds.streams]
  · intro seq _
    simp only [hand,same]
    rfl

theorem hand_holds (name : Bytes) : Holds hmac m (names ++ [name]) (hand hmac k name) ∧
      ∀ seq : Channel → UInt64, (∀ sk rk, seq (channelInit sk rk .strict) = 0) →
        counterOf seq (hand hmac k name) = counterOf seq k := by
  have bound := bound_hand holds.bound name
  rcases streamChannel_cases hmac holds.bound.material name with ⟨a,ch,-,same⟩ | ⟨fresh,-,new⟩ | ⟨-,none⟩
  · exact hand_unchanged holds same
  · refine ⟨⟨bound,?_,?_,?_⟩,?_⟩
    · simp only [hand,new,SessionPair.names,map_append,map_singleton]
      exact nodup_append.mpr ⟨holds.once,nodup_singleton _,
        fun b old c last equal => fresh (mem_singleton.mp last ▸ equal ▸ old)⟩
    · simp only [hand,new]
      exact forall_mem_snoc.mpr ⟨holds.strict,rfl⟩
    · simp [hand,new,holds.streams]
    · intro seq zero
      simp only [hand,new]
      exact counterOf_append seq fresh (zero _ _)
  · exact hand_unchanged holds none

theorem object_of_holds (here : names[j]? = some name) : ∃ st, k.streams[j]? = some st ∧ st.name = name := by
  rw [← holds.streams,getElem?_map,Option.map_eq_some_iff] at here
  exact here

theorem channel_of_holds (here : names[j]? = some name) (short : name.length ≤ 238) :
    ∃ a ch, k.streams[j]? = some ⟨name,some a⟩ ∧ k.streamChans[a]? = some (name,ch) := by
  obtain ⟨st,found,rfl⟩ := object_of_holds holds here
  have held := holds.bound.held st (mem_of_getElem? found)
  obtain ⟨name,channel⟩ := st
  cases channel with
  | none =>
    exact absurd short (Nat.not_le.mpr held)
  | some a =>
    obtain ⟨ch,there⟩ := held
    exact ⟨a,ch,found,there⟩

theorem clear_of_holds (here : names[j]? = some name) (long : ¬ name.length ≤ 238) :
    k.streams[j]? = some ⟨name,none⟩ := by
  obtain ⟨st,found,rfl⟩ := object_of_holds holds here
  have held := holds.bound.held st (mem_of_getElem? found)
  obtain ⟨name,channel⟩ := st
  cases channel with
  | none => exact found
  | some a =>
    obtain ⟨ch,there⟩ := held
    exact absurd (holds.bound.keyed a name ch there).1 long

theorem holds_set {ch'} (held : k.streamChans[a]? = some (name,ch)) (sendKey : ch'.sendKey = ch.sendKey)
    (recvKey : ch'.recvKey = ch.recvKey) (mode : ch'.mode = ch.mode) :
    Holds hmac m names { k with streamChans := k.streamChans.set a (name,ch') } := by
  refine ⟨bound_set holds.bound held sendKey recvKey,?_,?_,holds.streams⟩
  · have same := SessionPair.names_set held ch'
    simp only [SessionPair.names] at same ⊢
    rw [same]
    exact holds.once
  · intro entry mem
    rcases mem_or_eq_of_mem_set mem with old | rfl
    · exact holds.strict entry old
    · exact mode.trans (holds.strict _ (mem_of_getElem? held))

end

theorem writeMessage_small {data} (small : data.length ≤ maxMessageSize) : writeMessage data = some (frame data) :=
  writeMessage_eq_some.mpr ⟨small,rfl⟩

section
variable (holds : Holds hmac m names k)
include holds

theorem send_secured (here : names[j]? = some name) (short : name.length ≤ 238) {msg}
    (within : msg.length + 24 ≤ maxMessageSize) (up : Bool) : Holds hmac m names (GoSession.send aead k j msg up).1 ∧
    (GoSession.send aead k j msg up).2.wire =
      (if up then some (frame (packet aead (forkKey hmac m.sendKey (streamInfo name)) (counterOf Channel.sendSeq k name) msg))
        else none) ∧
    counterOf Channel.sendSeq (GoSession.send aead k j msg up).1 =
      update (counterOf Channel.sendSeq k) name (counterOf Channel.sendSeq k name + 1) ∧
    counterOf Channel.recvSeq (GoSession.send aead k j msg up).1 = counterOf Channel.recvSeq k := by
  obtain ⟨a,ch,stream,held⟩ := channel_of_holds holds here short
  have key := (holds.bound.keyed a name ch held).2.1
  have limit : msg.length + 24 < 2 ^ 31 := by unfold maxMessageSize at within; omega
  have returned : intReturn (packet aead ch.sendKey ch.sendSeq msg) = some _ :=
    intReturn_of_lt (by rw [packet_length]; exact limit)
  have written : writeMessage (packet aead ch.sendKey ch.sendSeq msg) = some _ :=
    writeMessage_small (by rw [packet_length]; exact within)
  have counter : ∀ seq : Channel → UInt64, counterOf seq k name = seq ch := fun _ => counterOf_held holds.once held
  have result : GoSession.send aead k j msg up =
      ({ k with streamChans := k.streamChans.set a (name,{ ch with sendSeq := ch.sendSeq + 1 }) },
        { used := some (ch.sendKey,nonceOf ch.sendSeq)
          wire := if up then some (frame (packet aead ch.sendKey ch.sendSeq msg)) else none
          got := none }) := by
    simp [GoSession.send,stream,held,returned,written,GoSession.Effects.nothing]
  rw [result]
  refine ⟨holds_set holds held rfl rfl rfl,?_,?_,?_⟩
  · rw [counter,← key]
  · rw [counterOf_set holds.once held,counter]
  · rw [counterOf_set holds.once held,← counter Channel.recvSeq,update_eq_self]

theorem send_clear (here : names[j]? = some name) (long : ¬ name.length ≤ 238) {msg}
    (small : msg.length ≤ maxMessageSize) (up : Bool) : (GoSession.send aead k j msg up).1 = k ∧
      (GoSession.send aead k j msg up).2.wire = (if up then some (frame msg) else none) := by
  simp [GoSession.send,clear_of_holds holds here long,writeMessage_small small]

theorem recv_packet (stream : k.streams[j]? = some ⟨name,some a⟩) (held : k.streamChans[a]? = some (name,ch))
    (within : p.length + 24 ≤ maxMessageSize) (seq : UInt64) (rest : Bytes) :
    GoSession.recv aead k j (frame (packet aead (forkKey hmac m.recvKey (streamInfo name)) seq p) ++ rest) =
      if seq = ch.recvSeq then
        ({ k with streamChans := k.streamChans.set a (name,{ ch with recvSeq := seq + 1 }) },⟨none,none,some p⟩)
      else ({ k with streamChans := k.streamChans.set a (name,ch) },.nothing) := by
  have key := (holds.bound.keyed a name ch held).2.2
  have strict := holds.strict _ (mem_of_getElem? held)
  have read : readMessage (frame (packet aead ch.recvKey seq p) ++ rest) = _ :=
    readMessage_frame (by rw [packet_length]; exact within) rest
  have limit : p.length < 2 ^ 31 := by unfold maxMessageSize at within; omega
  have opens : cwireDecrypt aead ch (packet aead ch.recvKey seq p) = _ := cwireDecrypt_strict strict limit seq
  simp only [← key,GoSession.recv,stream,read,held,opens]
  split
  · rfl
  · rfl

section
variable (here : names[j]? = some name) (short : name.length ≤ 238) (within : p.length + 24 ≤ maxMessageSize)
include here short within

theorem recv_expected (rest : Bytes) :
    ∃ k', GoSession.recv aead k j (frame (packet aead (forkKey hmac m.recvKey (streamInfo name))
        (counterOf Channel.recvSeq k name) p) ++ rest) = (k',⟨none,none,some p⟩) ∧
      Holds hmac m names k' ∧ counterOf Channel.sendSeq k' = counterOf Channel.sendSeq k ∧
      counterOf Channel.recvSeq k' =
        update (counterOf Channel.recvSeq k) name (counterOf Channel.recvSeq k name + 1) := by
  obtain ⟨a,ch,stream,held⟩ := channel_of_holds holds here short
  have counter : ∀ seq : Channel → UInt64, counterOf seq k name = seq ch := fun _ => counterOf_held holds.once held
  refine ⟨{ k with streamChans := k.streamChans.set a (name,{ ch with recvSeq := ch.recvSeq + 1 }) },?_,
    holds_set holds held rfl rfl rfl,?_,?_⟩
  · rw [counter,recv_packet holds stream held within ch.recvSeq rest,if_pos rfl]
  · rw [counterOf_set holds.once held,← counter Channel.sendSeq,update_eq_self]
  · rw [counterOf_set holds.once held,counter]

theorem recv_unexpected {seq} (unexpected : seq ≠ counterOf Channel.recvSeq k name) (rest : Bytes) :
    (GoSession.recv aead k j (frame (packet aead (forkKey hmac m.recvKey (streamInfo name)) seq p) ++ rest)).2.got =
      none := by
  obtain ⟨a,ch,stream,held⟩ := channel_of_holds holds here short
  rw [counterOf_held holds.once held] at unexpected
  rw [recv_packet holds stream held within seq rest,if_neg unexpected]
  rfl

end

end

def take (aead : Aead) (k : Keyring) (j : Nat) (arrived : Bytes) : (Keyring × Bytes) × Option Bytes :=
  (((GoSession.recv aead k j arrived).1,(readMessage arrived).1),(GoSession.recv aead k j arrived).2.got)

theorem take_expected (holds : Holds hmac m names k) (here : names[j]? = some name) (short : name.length ≤ 238)
    (within : p.length + 24 ≤ maxMessageSize) (rest : Bytes) :
    ∃ k', take aead k j (frame (packet aead (forkKey hmac m.recvKey (streamInfo name))
        (counterOf Channel.recvSeq k name) p) ++ rest) = ((k',rest),some p) ∧
      Holds hmac m names k' ∧ counterOf Channel.sendSeq k' = counterOf Channel.sendSeq k ∧
      counterOf Channel.recvSeq k' =
        update (counterOf Channel.recvSeq k) name (counterOf Channel.recvSeq k name + 1) := by
  obtain ⟨k',result,kept⟩ := recv_expected holds here short within rest
  refine ⟨k',?_,kept⟩
  rw [take,result,readMessage_frame (by rw [packet_length]; exact within)]

theorem take_clear (holds : Holds hmac m names k) (here : names[j]? = some name) (long : ¬ name.length ≤ 238)
    (small : p.length ≤ maxMessageSize) (rest : Bytes) : take aead k j (frame p ++ rest) = ((k,rest),some p) := by
  simp [take,GoSession.recv,clear_of_holds holds here long,readMessage_frame small]

theorem take_nothing (k : Keyring) (j : Nat) : take aead k j [] = ((k,[]),none) := by
  have read : readMessage [] = ([],none) := rfl
  rw [take,GoSession.recv,read]
  cases k.streams[j]? with
  | none => rfl
  | some st => rfl

end

def opens (name : Bytes) : Bool := !name.isEmpty && (writeMessage (encodeStreamHeader name)).isSome

def sealable (name : Bytes) : Bool := decide (name.length ≤ 238)

def goEndpoint (aead : Aead) (hmac : Bytes → Bytes → Key) (m : SessionMaterial) : Endpoint aead where
  State := Keyring
  Counter := Bytes
  decEq := inferInstance
  start := (newSession hmac (some m) none false false).keys
  hand := hand hmac
  send k j msg up := ((GoSession.send aead k j msg up).1,(GoSession.send aead k j msg up).2.wire)
  recv k j arrived _ := take aead k j arrived
  admits := opens
  secured := sealable
  fits _ _ := true
  counter name _ := name
  sendSeq := counterOf Channel.sendSeq
  recvSeq := counterOf Channel.recvSeq
  sendKey name := forkKey hmac m.sendKey (streamInfo name)
  recvKey name := forkKey hmac m.recvKey (streamInfo name)
  Holds := Holds hmac m
  counter_apart same := .inl same
  holds_start := holds_start
  sendSeq_start _ := rfl
  recvSeq_start _ := rfl
  hand_holds holds _ :=
    ⟨(hand_holds holds _).1,(hand_holds holds _).2 _ (fun _ _ => rfl),(hand_holds holds _).2 _ (fun _ _ => rfl)⟩
  send_secured _ up holds here short within := send_secured holds here (of_decide_eq_true short) within up
  send_clear up holds here long small :=
    Prod.ext (send_clear holds here (of_decide_eq_false long) small up).1
      (send_clear holds here (of_decide_eq_false long) small up).2
  recv_expected rest holds here short within _ := take_expected holds here (of_decide_eq_true short) within rest
  recv_unexpected rest _ holds here short within unexpected :=
    recv_unexpected holds here (of_decide_eq_true short) within unexpected rest
  recv_clear rest holds here long small := take_clear holds here (of_decide_eq_false long) small rest
  recv_nothing k j _ := take_nothing k j

def goPair (aead : Aead) (hmac : Bytes → Bytes → Key) (m : SessionMaterial) (side : Side) : Endpoint aead :=
  goEndpoint aead hmac (materialOf m side)

section
variable {aead : Aead} {hmac : Bytes → Bytes → Key} {m : SessionMaterial}

theorem goPair_matched : Matched (goPair aead hmac m) := by
  refine ⟨fun _ _ _ _ _ => rfl,?_⟩
  intro rx tx name apart _ _
  obtain rfl := Multiplex.eq_other apart
  cases rx with
  | near | far => rfl

theorem goPair_secret (name : Bytes) : Multiplex.secret (goPair aead hmac m) name = sealable name := Bool.or_self _

/-- Whatever is opened, sent, read, closed and reset, on either connection: every message that arrives is accepted,
    unless two encrypted streams have one name. -/
theorem streams_accept_iff {names : List Bytes} (taken : ∀ name ∈ names, opens name = true) :
    (∀ events, Multiplex.opened events = names → Along Multiplex.step Fits (idle (goPair aead hmac m)) events →
      Along Multiplex.step Accepts (idle (goPair aead hmac m)) events) ↔ (names.filter sealable).Nodup := by
  constructor
  · intro accepts
    by_contra repeated
    obtain ⟨i,i',name,here,there,apart,short⟩ := Multiplex.repeated_of_not_distinct repeated
    obtain ⟨events,same,fits,rejects⟩ := shared_counter_rejects goPair_matched here there apart taken
      (taken name (mem_of_getElem? here)) short rfl rfl
    exact rejects (accepts events same fits)
  · intro distinct events same fits
    refine accepts_run goPair_matched inv_idle ?_ fits
    have filtered : names.filter (Multiplex.secret (goPair aead hmac m)) = names.filter sealable :=
      filter_congr (fun name _ => goPair_secret name)
    rw [idle,map_nil,nil_append,same,filtered]
    exact distinct

end

def material : SessionMaterial := ⟨keyA,keyB⟩

theorem chat_and_video_accepted : (∀ name ∈ [ascii "chat",ascii "video"], opens name = true) ∧
    ∀ events, Multiplex.opened events = ["chat","video"] →
      Along Multiplex.step Fits (idle (goPair checked mixed material)) events →
      Along Multiplex.step Accepts (idle (goPair checked mixed material)) events :=
  ⟨by decide,(streams_accept_iff (by decide)).mpr (by decide)⟩

/-- Two streams of one name lose a message, also when the second runs on the new connection or the first was reset. -/
theorem chat_twice_rejected :
    (let run := final Multiplex.step (idle (goPair checked mixed material))
      [.connect .near "chat",.connect .near "chat",.accept .far 0,.accept .far 1,
        .send .near 0 [1],.send .near 1 [2]]
     run.next .far 1 = some [2] ∧ (Multiplex.step run (.recv .far 1 0)).2 = none) ∧
    (let run := final Multiplex.step (idle (goPair checked mixed material))
      [.connect .near "chat",.accept .far 0,.swapTransport,.connect .near "chat",.accept .far 1,
        .send .near 0 [1],.send .near 1 [2]]
     run.next .far 1 = some [2] ∧ (Multiplex.step run (.recv .far 1 0)).2 = none) ∧
    (let run := final Multiplex.step (idle (goPair checked mixed material))
      [.connect .near "chat",.accept .far 0,.send .near 0 [1],.reset .near 0,
        .connect .near "chat",.accept .far 1,.send .near 1 [2]]
     run.next .far 1 = some [2] ∧ (Multiplex.step run (.recv .far 1 0)).2 = none) := by
  decide +kernel

end Pigeon.GoEndpoint
