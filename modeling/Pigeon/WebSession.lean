import Pigeon.Framing
import Pigeon.KeySchedule
import Pigeon.Receivers

/-!
The session of the browser port (`relay.ts`, `crypto.ts`). Its streams and datagrams share
one `E2EChannel` in strict mode. So what arrives in order on its stream decrypts in every
session with one stream and no datagram channels, and in no other that has streams
(`stream_messages_decrypt_iff`).
-/
namespace Pigeon.WebSession
open Octets Runs Sealing Crypto Framing Receivers List
open KeySchedule (ascii)

def encodeUvarint (n : Nat) : Bytes := putUvarint n n

def decodeUvarint : Nat → Nat → Bytes → Option (Nat × Bytes)
  | _, _, [] => none
  | i, value, b :: rest =>
    if 10 ≤ i then none
    else if b.toNat < 128 then some (value + b.toNat * 128 ^ i,rest)
    else decodeUvarint (i + 1) (value + (b.toNat - 128) * 128 ^ i) rest

/-- A stream to the browser: the octets under way, whether it is closed, and the messages not yet read. -/
structure Line where
  octets : Bytes
  pending : List Bytes
  closed : Bool

/-- The sender's key and counter (a `bigint`), the receiver's channel, the declared datagram ids, the streams and the
    datagrams under way. -/
structure Session where
  sendKey : Key
  sendSeq : Nat
  receiver : TsChannel
  ids : List Nat
  lines : List Line
  flying : List Bytes

def newSession (key : Key) (ids : List Nat) : Option Session :=
  if 0 ∈ ids ∨ ¬ ids.Nodup then none else some ⟨key,0,⟨key,0,.strict⟩,ids,[],[]⟩

inductive Event
  /-- A stream is opened, by either side. -/
  | openStream
  | send (i : Nat) (msg : Bytes)
  | recv (i : Nat)
  | close (i : Nat)
  /-- `Datagram.send` on the channel that was declared as number `c`. -/
  | sendDatagram (c : Nat) (payload : Bytes)
  /-- A datagram under way reaches the pump. -/
  | deliver (j : Nat)
  | lose (j : Nat)

inductive Answer
  | nothing
  | message (got : Option Bytes)
  | datagram (got : Option (Nat × Bytes))
deriving DecidableEq

section
variable (aead : Aead)

/-- `E2EChannel.encrypt`: `setBigUint64` keeps the low 64 bits of the counter. -/
def tsEncrypt (s : Session) (plaintext : Bytes) : Session × Bytes :=
  ({ s with sendSeq := s.sendSeq + 1 },packet aead s.sendKey (UInt64.ofNat s.sendSeq) plaintext)

/-- `Stream.send`. -/
def send (s : Session) (i : Nat) (msg : Bytes) : Session :=
  match s.lines[i]? with
  | none => s
  | some line =>
    if line.closed then s
    else
      match writeMessage (tsEncrypt aead s msg).2 with
      | none => (tsEncrypt aead s msg).1
      | some octets =>
        { (tsEncrypt aead s msg).1 with
          lines := s.lines.set i { line with octets := line.octets ++ octets, pending := line.pending ++ [msg] } }

/-- `Stream.recv`. -/
def recv (s : Session) (i : Nat) : Session × Option Bytes :=
  match s.lines[i]? with
  | none => (s,none)
  | some line =>
    let (rest,ct) := readMessage line.octets
    let lines := s.lines.set i { line with octets := rest, pending := line.pending.tail }
    match ct with
    | none => ({ s with lines := lines },none)
    | some ct =>
      ({ s with lines := lines, receiver := (tsDecrypt aead s.receiver ct).1 },(tsDecrypt aead s.receiver ct).2)

/-- `encodeDatagram`. -/
def sendDatagram (s : Session) (c : Nat) (payload : Bytes) : Session :=
  match s.ids[c]? with
  | none => s
  | some channelId =>
    let (s',ct) := tsEncrypt aead s (encodeUvarint channelId ++ payload)
    { s' with flying := s.flying ++ [ct] }

/-- One round of `datagramPump`: the channel and the payload delivered to it. -/
def deliver (s : Session) (j : Nat) : Session × Option (Nat × Bytes) :=
  match s.flying[j]? with
  | none => (s,none)
  | some value =>
    ({ s with flying := s.flying.eraseIdx j, receiver := (tsDecrypt aead s.receiver value).1 },
      (tsDecrypt aead s.receiver value).2.bind (fun plain =>
        (decodeUvarint 0 0 plain).filter (fun decoded => s.ids.contains decoded.1)))

def step (s : Session) : Event → Session × Answer
  | .openStream => ({ s with lines := s.lines ++ [⟨[],[],false⟩] },.nothing)
  | .send i msg => (send aead s i msg,.nothing)
  | .recv i => ((recv aead s i).1,.message (recv aead s i).2)
  | .close i =>
    match s.lines[i]? with
    | none => (s,.nothing)
    | some line => ({ s with lines := s.lines.set i { line with closed := true } },.nothing)
  | .sendDatagram c payload => (sendDatagram aead s c payload,.nothing)
  | .deliver j => ((deliver aead s j).1,.datagram (deliver aead s j).2)
  | .lose j => ({ s with flying := s.flying.eraseIdx j },.nothing)

end

def next (s : Session) (i : Nat) : Option Bytes := s.lines[i]?.bind (·.pending.head?)

def Within (s : Session) : Event → Prop
  | .send _ msg => msg.length + 24 ≤ maxMessageSize ∧ s.sendSeq < 2 ^ 64
  | .sendDatagram _ _ => s.sendSeq < 2 ^ 64
  | _ => True

def Decrypts (aead : Aead) (s : Session) : Event → Prop
  | .recv i => ∀ msg ∈ next s i, (step aead s (.recv i)).2 = .message (some msg)
  | _ => True

def opened : List Event → Nat
  | [] => 0
  | .openStream :: rest => opened rest + 1
  | _ :: rest => opened rest

section
variable {aead : Aead} {s : Session}

def numberedFrom (aead : Aead) (key : Key) : Nat → List Bytes → List Bytes
  | _, [] => []
  | n, msg :: rest => packet aead key (UInt64.ofNat n) msg :: numberedFrom aead key (n + 1) rest

theorem numberedFrom_append (key : Key) (n : Nat) (first second : List Bytes) :
    numberedFrom aead key n (first ++ second) = numberedFrom aead key n first ++
      numberedFrom aead key (n + first.length) second := by
  induction first generalizing n with
  | nil => rfl
  | cons msg rest ih =>
    simp only [cons_append,numberedFrom,ih,length_cons]
    rw [Nat.add_right_comm,Nat.add_assoc]

structure Carries (aead : Aead) (s : Session) (line : Line) : Prop where
  octets : line.octets = (numberedFrom aead s.sendKey s.receiver.recvSeq line.pending).flatMap frame
  count : s.receiver.recvSeq + line.pending.length = s.sendSeq
  small : ∀ msg ∈ line.pending, msg.length + 24 ≤ maxMessageSize

structure Sole (aead : Aead) (s : Session) : Prop where
  strict : s.receiver.mode = .strict
  key : s.receiver.recvKey = s.sendKey
  quiet : s.flying = []
  undeclared : s.ids = []
  few : s.sendSeq ≤ 2 ^ 64
  lines : (s.lines = [] ∧ s.receiver.recvSeq = s.sendSeq) ∨ ∃ line, s.lines = [line] ∧ Carries aead s line

theorem tsDecrypt_packet {ch} (strict : ch.mode = .strict) {n} (below : n < 2 ^ 64) (p : Bytes) :
    tsDecrypt aead ch (packet aead ch.recvKey (UInt64.ofNat n) p) =
      if n = ch.recvSeq then ({ ch with recvSeq := n + 1 },some p) else (ch,none) := by
  have value : (UInt64.ofNat n).toNat = n := by simpa using below
  have long : ¬ (packet aead ch.recvKey (UInt64.ofNat n) p).length < 8 := by rw [packet_length]; omega
  rw [tsDecrypt,if_neg long,strict]
  simp only [readLe64_packet,opened_packet,value]
  by_cases expected : n = ch.recvSeq
  · simp [expected]
  · simp [expected]

theorem sole_new {key : Key} (made : newSession key [] = some s) : Sole aead s := by
  cases (Option.some.inj made : ⟨key,0,⟨key,0,.strict⟩,[],[],[]⟩ = s)
  exact ⟨rfl,rfl,rfl,rfl,Nat.zero_le _,.inl ⟨rfl,rfl⟩⟩

section
variable (sole : Sole aead s)
include sole

theorem sole_open (none : s.lines = []) : Sole aead (step aead s .openStream).1 := by
  rcases sole.lines with ⟨-,level⟩ | ⟨line,some,-⟩
  · refine { sole with lines := .inr ⟨⟨[],[],false⟩,?_,rfl,level,?_⟩ }
    · simp [step,none]
    · intro msg impossible
      cases impossible
  · rw [none] at some
    cases some

theorem line_of_sole {i line} (here : s.lines[i]? = some line) : i = 0 ∧ s.lines = [line] ∧ Carries aead s line := by
  rcases sole.lines with ⟨none,-⟩ | ⟨only,single,carries⟩
  · rw [none] at here
    cases here
  · rw [single,getElem?_singleton] at here
    split at here
    · rename_i zero
      cases here
      exact ⟨zero,single,carries⟩
    · cases here

theorem sole_send {i msg} (within : msg.length + 24 ≤ maxMessageSize) (below : s.sendSeq < 2 ^ 64) :
    Sole aead (send aead s i msg) := by
  unfold send
  split
  · exact sole
  · rename_i line here
    split
    · exact sole
    · obtain ⟨rfl,single,carries⟩ := line_of_sole sole here
      have written : writeMessage (tsEncrypt aead s msg).2 = some _ :=
        writeMessage_eq_some.mpr ⟨by rw [tsEncrypt,packet_length]; exact within,rfl⟩
      rw [written]
      simp only [tsEncrypt]
      refine { sole with few := below, lines := .inr ⟨_,by rw [single]; rfl,?_,?_,?_⟩ }
      · simp [numberedFrom_append,numberedFrom,carries.count,carries.octets]
      · simp only [length_append,length_singleton]
        rw [← Nat.add_assoc,carries.count]
      · exact Sequence.forall_mem_snoc.mpr ⟨carries.small,within⟩

theorem sole_recv (i : Nat) : Sole aead (recv aead s i).1 ∧ ∀ msg ∈ next s i, (recv aead s i).2 = some msg := by
  unfold recv next
  cases here : s.lines[i]? with
  | none => exact ⟨sole,by simp⟩
  | some line =>
    obtain ⟨rfl,single,carries⟩ := line_of_sole sole here
    obtain ⟨octets,pending,closed⟩ := line
    cases pending with
    | nil =>
      have empty : octets = [] := carries.octets
      subst empty
      refine ⟨?_,by simp⟩
      refine { sole with lines := .inr ⟨⟨[],[],closed⟩,?_,rfl,carries.count,?_⟩ }
      · simp [single,readMessage]
      · intro msg impossible
        cases impossible
    | cons msg rest =>
      have within := carries.small msg mem_cons_self
      have count : s.receiver.recvSeq + (rest.length + 1) = s.sendSeq := carries.count
      have below : s.receiver.recvSeq < 2 ^ 64 := by have := sole.few; omega
      have order : octets = _ := carries.octets
      rw [numberedFrom,flatMap_cons] at order
      have read : readMessage octets = ((numberedFrom aead s.sendKey (s.receiver.recvSeq + 1) rest).flatMap frame,
          some (packet aead s.sendKey (UInt64.ofNat s.receiver.recvSeq) msg)) := by
        rw [order]
        exact readMessage_frame (by rw [packet_length]; exact within) _
      have opens : tsDecrypt aead s.receiver (packet aead s.receiver.recvKey _ msg) = _ :=
        (tsDecrypt_packet sole.strict below msg).trans (if_pos rfl)
      rw [sole.key] at opens
      simp only [read,opens]
      refine ⟨{ sole with key := rfl, lines := .inr ⟨_,by rw [single]; rfl,rfl,?_,?_⟩ },by simp⟩
      · simp only [tail_cons]
        omega
      · intro other mem
        exact carries.small other (mem_cons_of_mem _ mem)

theorem sole_close (i : Nat) : Sole aead (step aead s (.close i)).1 := by
  simp only [step]
  split
  · exact sole
  · rename_i line here
    obtain ⟨rfl,single,carries⟩ := line_of_sole sole here
    refine { sole with lines := .inr ⟨_,by rw [single]; rfl,?_⟩ }
    exact { carries with }

theorem sole_step {e} (room : e = .openStream → s.lines = []) (within : Within s e) :
    Sole aead (step aead s e).1 ∧ Decrypts aead s e := by
  cases e with
  | openStream => exact ⟨sole_open sole (room rfl),trivial⟩
  | send i msg => exact ⟨sole_send sole within.1 within.2,trivial⟩
  | recv i =>
    obtain ⟨kept,got⟩ := sole_recv sole i
    refine ⟨kept,?_⟩
    intro msg waiting
    rw [step,got msg waiting]
  | close i => exact ⟨sole_close sole i,trivial⟩
  | sendDatagram c payload =>
    refine ⟨?_,trivial⟩
    simp only [step,sendDatagram,sole.undeclared,getElem?_nil]
    exact sole
  | deliver j =>
    refine ⟨?_,trivial⟩
    simp only [step,deliver,sole.quiet,getElem?_nil]
    exact sole
  | lose j =>
    refine ⟨?_,trivial⟩
    have same : s.flying.eraseIdx j = s.flying := by rw [sole.quiet,eraseIdx_nil]
    simp only [step,same]
    exact sole

end

theorem lines_step (e : Event) : (step aead s e).1.lines.length = s.lines.length + opened [e] := by
  cases e with
  | openStream => simp [step,opened]
  | send i msg =>
    simp only [step,send,opened,Nat.add_zero]
    split
    · rfl
    · split
      · rfl
      · split
        · rfl
        · exact length_set
  | recv i =>
    simp only [step,recv,opened,Nat.add_zero]
    split
    · rfl
    · split
      · exact length_set
      · exact length_set
  | close i =>
    simp only [step,opened,Nat.add_zero]
    split
    · rfl
    · exact length_set
  | sendDatagram c payload =>
    simp only [step,sendDatagram,opened,Nat.add_zero]
    split
    · rfl
    · rfl
  | deliver j =>
    simp only [step,deliver,opened,Nat.add_zero]
    split
    · rfl
    · rfl
  | lose j => rfl

theorem opened_cons (e : Event) (rest : List Event) : opened (e :: rest) = opened [e] + opened rest := by
  cases e with
  | openStream => exact Nat.add_comm _ _
  | _ => exact (Nat.zero_add _).symm

theorem decrypts_run (sole : Sole aead s) {events : List Event} (room : s.lines.length + opened events ≤ 1)
    (within : Along (step aead) Within s events) : Along (step aead) (Decrypts aead) s events := by
  induction events generalizing s with
  | nil => trivial
  | cons e rest ih =>
    rw [opened_cons] at room
    obtain ⟨next,decrypts⟩ := sole_step sole (by
      rintro rfl
      refine length_eq_zero_iff.mp ?_
      simp only [opened] at room
      omega) within.1
    refine ⟨decrypts,ih next ?_ within.2⟩
    rw [lines_step]
    omega

theorem final_opens (aead : Aead) (s : Session) (k : Nat) :
    final (step aead) s (replicate k .openStream) = { s with lines := s.lines ++ replicate k ⟨[],[],false⟩ } := by
  induction k generalizing s with
  | zero => simp
  | succ k ih =>
    rw [replicate_succ,final_cons,ih]
    simp [step,replicate_succ]

theorem opened_opens (k : Nat) (rest : List Event) : opened (replicate k .openStream ++ rest) = k + opened rest := by
  induction k with
  | zero => exact (Nat.zero_add _).symm
  | succ k ih => rw [replicate_succ,cons_append,opened,ih,Nat.add_right_comm]

theorem send_first {i : Nat} (fresh : s.lines[i]? = some ⟨[],[],false⟩) : send aead s i [] = { s with
      sendSeq := s.sendSeq + 1
      lines := s.lines.set i ⟨frame (packet aead s.sendKey (UInt64.ofNat s.sendSeq) []),[[]],false⟩ } := by
  have written : writeMessage (tsEncrypt aead s []).2 = some _ :=
    writeMessage_eq_some.mpr ⟨by rw [tsEncrypt,packet_length]; decide,rfl⟩
  rw [send,fresh]
  simp only [written]
  rfl

theorem first_rejected (strict : s.receiver.mode = .strict) (key : s.receiver.recvKey = s.sendKey)
    (ahead : s.receiver.recvSeq < s.sendSeq) (below : s.sendSeq < 2 ^ 64) {i}
    (fresh : s.lines[i]? = some ⟨[],[],false⟩) : ¬ Along (step aead) (Decrypts aead) s [.send i [],.recv i] := by
  intro decrypts
  have got := decrypts.2.1
  simp only [step,send_first fresh,Decrypts,next,Sequence.getElem?_set_found fresh] at got
  have returned := got [] rfl
  have small : (packet aead s.sendKey (UInt64.ofNat s.sendSeq) []).length ≤ maxMessageSize := by
    rw [packet_length]; decide
  have read := readMessage_frame small []
  rw [append_nil] at read
  have refused : tsDecrypt aead s.receiver (packet aead s.receiver.recvKey (UInt64.ofNat s.sendSeq) []) = _ :=
    (tsDecrypt_packet strict below []).trans (if_neg (by omega))
  rw [key] at refused
  simp only [recv,Sequence.getElem?_set_found fresh,read,refused] at returned
  cases returned

theorem decrypts_without (none : s.lines = []) {events : List Event} (unopened : opened events = 0) :
    Along (step aead) (Decrypts aead) s events := by
  induction events generalizing s with
  | nil => trivial
  | cons e rest ih =>
    rw [opened_cons] at unopened
    have kept : (step aead s e).1.lines = [] := by
      refine length_eq_zero_iff.mp ?_
      rw [lines_step,none,length_nil]
      omega
    refine ⟨?_,ih kept (by omega)⟩
    cases e with
    | recv i => simp [Decrypts,next,none]
    | _ => trivial

end

def withStreams (key : Key) (ids : List Nat) (k : Nat) : Session :=
  ⟨key,0,⟨key,0,.strict⟩,ids,replicate k ⟨[],[],false⟩,[]⟩

theorem start_of_made {key : Key} {ids : List Nat} {s : Session} (made : newSession key ids = some s) :
    s = withStreams key ids 0 := by
  unfold newSession at made
  split at made
  · cases made
  · exact (Option.some.inj made).symm

theorem opens_ready (aead : Aead) (key : Key) (ids : List Nat) (k : Nat) :
    final (step aead) (withStreams key ids 0) (replicate k .openStream) = withStreams key ids k := by
  rw [final_opens]
  rfl

theorem rejects_behind {aead : Aead} {key : Key} {ids : List Nat} {k i : Nat} {e : Event} (other : opened [e] = 0)
    (taken : Within (withStreams key ids k) e) (sent : (step aead (withStreams key ids k) e).1.sendSeq = 1)
    (same : (step aead (withStreams key ids k) e).1.sendKey = key)
    (unread : (step aead (withStreams key ids k) e).1.receiver = ⟨key,0,.strict⟩)
    (fresh : (step aead (withStreams key ids k) e).1.lines[i]? = some ⟨[],[],false⟩) :
    ∃ events, opened events = k ∧ Along (step aead) Within (withStreams key ids 0) events ∧
      ¬ Along (step aead) (Decrypts aead) (withStreams key ids 0) events := by
  have quiet : Along (step aead) Within (withStreams key ids 0) (replicate k .openStream) := by
    refine along_mono ?_ (along_of_forall (P := fun e => e = .openStream) ?_)
    · rintro s e rfl
      trivial
    · intro e mem
      exact eq_of_mem_replicate mem
  refine ⟨replicate k .openStream ++ [e,.send i [],.recv i],?_,?_,?_⟩
  · rw [opened_opens,opened_cons,other]
    rfl
  · refine (along_append _ _ _ _ _).mpr ⟨quiet,?_⟩
    rw [opens_ready]
    refine ⟨taken,⟨by decide,?_⟩,trivial,trivial⟩
    rw [sent]
    decide
  · intro decrypts
    have late := ((along_append _ _ _ _ _).mp decrypts).2
    rw [opens_ready] at late
    refine first_rejected ?_ ?_ ?_ ?_ fresh late.2
    · rw [unread]
    · rw [unread,same]
    · rw [unread,sent]
      exact Nat.zero_lt_one
    · rw [sent]
      decide

/-- With `k` streams, whatever is sent, lost and delivered: what is next on its stream decrypts if and only if there
    is nothing it could get ahead of. -/
theorem stream_messages_decrypt_iff {aead : Aead} {key : Key} {ids : List Nat} {s : Session}
    (made : newSession key ids = some s) (k : Nat) :
    (∀ events, opened events = k → Along (step aead) Within s events → Along (step aead) (Decrypts aead) s events) ↔
      k = 0 ∨ k = 1 ∧ ids = [] := by
  obtain rfl := start_of_made made
  constructor
  · intro decrypts
    by_contra other
    push Not at other
    have rejected : ¬ ∃ events, opened events = k ∧ Along (step aead) Within (withStreams key ids 0) events ∧
        ¬ Along (step aead) (Decrypts aead) (withStreams key ids 0) events := by
      rintro ⟨events,count,within,fails⟩
      exact fails (decrypts events count within)
    cases ids with
    | nil =>
      have two : 1 < k := by have := other.2; simp at this; omega
      have first : (withStreams key [] k).lines[0]? = some ⟨[],[],false⟩ := getElem?_replicate_of_lt (by omega)
      have second : (withStreams key [] k).lines[1]? = some ⟨[],[],false⟩ := getElem?_replicate_of_lt two
      have sends : send aead _ 0 [] = _ := send_first first
      refine rejected (rejects_behind (i := 1) (e := .send 0 []) rfl ⟨by decide,Nat.two_pow_pos 64⟩ ?_ ?_ ?_ ?_)
      · simp only [step,sends]; rfl
      · simp only [step,sends]; rfl
      · simp only [step,sends]; rfl
      · simp only [step,sends]
        rw [getElem?_set_ne (by decide)]
        exact second
    | cons channelId rest =>
      have first : (withStreams key (channelId :: rest) k).lines[0]? = some ⟨[],[],false⟩ :=
        getElem?_replicate_of_lt (by omega)
      exact rejected (rejects_behind (i := 0) (e := .sendDatagram 0 []) rfl (Nat.two_pow_pos 64) rfl rfl rfl first)
  · rintro (rfl | ⟨rfl,rfl⟩) events count within
    · exact decrypts_without rfl count
    · exact decrypts_run (sole_new made) (by rw [count]; exact Nat.le_refl _) within

theorem one_stream_decrypts : newSession keyA [] = some (withStreams keyA [] 0) ∧
    ∀ events, opened events = 1 → Along (step checked) Within (withStreams keyA [] 0) events →
      Along (step checked) (Decrypts checked) (withStreams keyA [] 0) events :=
  ⟨rfl,(stream_messages_decrypt_iff rfl 1).mpr (.inr ⟨rfl,rfl⟩)⟩

/-- Of two streams the one written second is read first; a datagram is lost, or comes later than a message that was
    sent after it. -/
theorem streams_and_datagrams_rejected : (newSession keyA []).map (fun s => answers (step checked) s
        [.openStream,.openStream,.send 0 [1],.send 1 [2],.recv 1]) =
      some [.nothing,.nothing,.nothing,.nothing,.message none] ∧
    (newSession keyA [5]).map (fun s => answers (step checked) s
        [.openStream,.sendDatagram 0 [1],.send 0 [2],.lose 0,.recv 0]) =
      some [.nothing,.nothing,.nothing,.nothing,.message none] ∧
    (newSession keyA [5]).map (fun s => answers (step checked) s
        [.openStream,.sendDatagram 0 [1],.send 0 [2],.recv 0,.deliver 0]) =
      some [.nothing,.nothing,.nothing,.message none,.datagram (some (5,[1]))] := by
  decide +kernel

end Pigeon.WebSession
