import Pigeon.Framing
import Pigeon.Runs

/-!
Receiving on the backchannel (`backchannel/session.go`, `backchannel/wire.go`). `Recv` reads
a frame in several reads, and what it has read when its deadline passes is nowhere kept. So
nothing is lost just as long as deadlines pass between frames (`recv_lossless_iff`).
-/
namespace Pigeon.Backchannel
open Octets Framing Runs List

structure Message where
  (type instanceID token code status : String)
deriving DecidableEq

def maxFrameSize : Nat := 64 * 1024

inductive SendError
  | emptyType
  | oversize

inductive RecvError
  | deadlineExceeded
  | oversize
  | decode
  | emptyType
deriving DecidableEq

/-- How far a call of `Recv` is: it reads the header, or a payload of the length in it. -/
inductive Phase
  | header (got : Bytes)
  | payload (length : Nat) (got : Bytes)

def Phase.held : Phase → Bytes
  | .header got => got
  | .payload length got => be 4 length ++ got

/-- What has not arrived, what is not read, the call under way (`readMu` lets one in), and the messages sent and
    returned. -/
structure State where
  (wire socket : Bytes)
  call : Option Phase
  (sent returned : List Message)

def start : State := ⟨[],[],none,[],[]⟩

def State.held (s : State) : Bytes := s.call.elim [] Phase.held

inductive Event
  | send (msg : Message)
  | arrive (n : Nat)
  | recv
  /-- A read of the call returns `n` octets. -/
  | read (n : Nat)
  /-- A read of the call finds that its deadline has passed. -/
  | expire

section
/- `json.Marshal` and `json.Unmarshal`. -/
variable (marshal : Message → Bytes) (unmarshal : Bytes → Option Message)

def writeFrame (msg : Message) : Except SendError Bytes :=
  if msg.type = "" then .error .emptyType
  else if maxFrameSize < (marshal msg).length then .error .oversize
  else .ok (frame (marshal msg))

def decoded (payload : Bytes) : Except RecvError Message :=
  match unmarshal payload with
  | none => .error .decode
  | some msg => if msg.type = "" then .error .emptyType else .ok msg

def State.finish (s : State) (result : Except RecvError Message) : State × Option (Except RecvError Message) :=
  ({ s with call := none, returned := s.returned ++ result.toOption.toList },some result)

/-- `readFrame` after the header; nothing is read for an empty payload. -/
def State.afterHeader (s : State) (length : Nat) : State × Option (Except RecvError Message) :=
  if maxFrameSize < length then s.finish (.error .oversize)
  else if length = 0 then s.finish (decoded unmarshal [])
  else ({ s with call := some (.payload length []) },none)

/-- `readFrame`. -/
def State.read (s : State) (n : Nat) : State × Option (Except RecvError Message) :=
  if n = 0 ∨ s.socket.length < n then (s,none)
  else
    let rest := { s with socket := s.socket.drop n }
    match s.call with
    | none => (s,none)
    | some (.header got) =>
      if 4 < got.length + n then (s,none)
      else if got.length + n < 4 then ({ rest with call := some (.header (got ++ s.socket.take n)) },none)
      else rest.afterHeader unmarshal (ofBe (got ++ s.socket.take n))
    | some (.payload length got) =>
      if length < got.length + n then (s,none)
      else if got.length + n < length then ({ rest with call := some (.payload length (got ++ s.socket.take n)) },none)
      else rest.finish (decoded unmarshal (got ++ s.socket.take n))

/-- A frame is sent, octets arrive, or `Recv` goes on. -/
def step (s : State) : Event → State × Option (Except RecvError Message)
  | .send msg =>
    match writeFrame marshal msg with
    | .error _ => (s,none)
    | .ok octets => ({ s with wire := s.wire ++ octets, sent := s.sent ++ [msg] },none)
  | .arrive n => ({ s with socket := s.socket ++ s.wire.take n, wire := s.wire.drop n },none)
  | .recv => (if s.call = none then { s with call := some (.header []) } else s,none)
  | .read n => s.read unmarshal n
  | .expire => if s.call = none then (s,none) else s.finish (.error .deadlineExceeded)

def octetsOf (messages : List Message) : Bytes := messages.flatMap (fun msg => frame (marshal msg))

def Lossless (s : State) : Prop :=
  ∃ pending, s.sent = s.returned ++ pending ∧ s.held ++ s.socket ++ s.wire = octetsOf marshal pending

theorem octetsOf_cons (msg : Message) (rest : List Message) :
    octetsOf marshal (msg :: rest) = be 4 (marshal msg).length ++ (marshal msg ++ octetsOf marshal rest) := by
  simp [octetsOf,frame]

def Clean (s : State) : Event → Prop
  | .expire => s.held = []
  | _ => True

structure Sendable (msg : Message) : Prop where
  typed : msg.type ≠ ""
  fits : (marshal msg).length ≤ maxFrameSize
  back : unmarshal (marshal msg) = some msg

def Phase.Short : Phase → Prop
  | .header got => got.length < 4
  | .payload length got => got.length < length ∧ length ≤ maxFrameSize

structure Synced (s : State) (pending : List Message) : Prop where
  sent : s.sent = s.returned ++ pending
  octets : s.held ++ s.socket ++ s.wire = octetsOf marshal pending
  sendable : ∀ msg ∈ pending, Sendable marshal unmarshal msg
  short : ∀ phase ∈ s.call, phase.Short

variable {marshal unmarshal} {s : State} {pending : List Message}

theorem pending_cons {octets : Bytes} (left : octets = octetsOf marshal pending) (some_octet : octets ≠ []) :
    ∃ msg rest, pending = msg :: rest := by
  cases pending with
  | nil => exact absurd left some_octet
  | cons msg rest => exact ⟨msg,rest,rfl⟩

variable {msg : Message}

theorem Synced.decoded (old : Synced marshal unmarshal s pending) (mem : msg ∈ pending) :
    Backchannel.decoded unmarshal (marshal msg) = .ok msg := by
  have sendable := old.sendable msg mem
  rw [Backchannel.decoded,sendable.back]
  simp [sendable.typed]

theorem Synced.finish {rest : List Message} (old : Synced marshal unmarshal s (msg :: rest))
    {t : State} (sent : t.sent = s.sent) (returned : t.returned = s.returned)
    (left : t.socket ++ t.wire = octetsOf marshal rest) :
    Synced marshal unmarshal (t.finish (Backchannel.decoded unmarshal (marshal msg))).1 rest := by
  rw [old.decoded mem_cons_self]
  refine ⟨?_,?_,fun other mem => old.sendable other (mem_cons_of_mem _ mem),?_⟩
  · show t.sent = (t.returned ++ [msg]) ++ rest
    rw [sent,returned,old.sent,append_assoc]
    rfl
  · exact left
  · intro phase none
    cases none

theorem split_socket (s : State) (n : Nat) (got : Bytes) :
    got ++ s.socket ++ s.wire = got ++ s.socket.take n ++ (s.socket.drop n ++ s.wire) := by
  rw [append_assoc,append_assoc,← append_assoc (s.socket.take n),take_append_drop]

variable {n : Nat}

theorem taken_length {s : State} (within : n ≤ s.socket.length) (got : Bytes) :
    (got ++ s.socket.take n).length = got.length + n := by
  rw [length_append,length_take,Nat.min_eq_left within]

theorem ofBe_length (fits : (marshal msg).length ≤ maxFrameSize) :
    ofBe (be 4 (marshal msg).length) = (marshal msg).length := by
  rw [ofBe_be]
  exact Nat.mod_eq_of_lt (by unfold maxFrameSize at fits; omega)

section
variable (old : Synced marshal unmarshal s pending)
include old

variable {got : Bytes}

theorem Synced.afterHeader (call : s.call = some (.header got)) (within : n ≤ s.socket.length)
    (four : got.length + n = 4) : ∃ pending', Synced marshal unmarshal
      ({ s with socket := s.socket.drop n }.afterHeader unmarshal (ofBe (got ++ s.socket.take n))).1 pending' := by
  have octets := old.octets
  rw [State.held,call] at octets
  simp only [Option.elim_some,Phase.held] at octets
  rw [split_socket s n] at octets
  have width : (got ++ s.socket.take n).length = 4 := by rw [taken_length within,four]
  have some_octet : got ++ s.socket.take n ++ (s.socket.drop n ++ s.wire) ≠ [] := by
    intro none
    rw [(append_eq_nil_iff.mp none).1] at width
    cases width
  obtain ⟨msg,rest,rfl⟩ := pending_cons octets some_octet
  rw [octetsOf_cons] at octets
  obtain ⟨header,left⟩ := append_inj octets (by rw [width,be_length])
  have fits := (old.sendable msg mem_cons_self).fits
  rw [header,ofBe_length fits,State.afterHeader,if_neg (by omega)]
  split
  next none =>
    have empty : marshal msg = [] := length_eq_zero_iff.mp none
    refine ⟨rest,?_⟩
    rw [← empty]
    refine old.finish rfl rfl ?_
    rw [left,empty,nil_append]
  next some =>
    refine ⟨msg :: rest,old.sent,?_,old.sendable,?_⟩
    · rw [octetsOf_cons]
      show be 4 (marshal msg).length ++ [] ++ s.socket.drop n ++ s.wire = _
      rw [append_nil,append_assoc,left]
    · intro phase reading
      cases reading
      exact ⟨Nat.pos_of_ne_zero some,fits⟩

variable {length : Nat}

theorem Synced.payload (call : s.call = some (.payload length got)) :
    ∃ msg rest, pending = msg :: rest ∧ length = (marshal msg).length ∧
      got ++ s.socket ++ s.wire = marshal msg ++ octetsOf marshal rest := by
  have octets := old.octets
  rw [State.held,call] at octets
  simp only [Option.elim_some,Phase.held,append_assoc] at octets
  have some_octet : be 4 length ++ (got ++ (s.socket ++ s.wire)) ≠ [] := by
    intro none
    have width := congrArg List.length (append_eq_nil_iff.mp none).1
    rw [be_length] at width
    cases width
  obtain ⟨msg,rest,rfl⟩ := pending_cons octets some_octet
  rw [octetsOf_cons] at octets
  obtain ⟨header,left⟩ := append_inj octets (by rw [be_length,be_length])
  refine ⟨msg,rest,rfl,?_,by rw [append_assoc,left]⟩
  have bound := (old.short _ call).2
  have numbers := congrArg ofBe header
  rw [ofBe_length (old.sendable msg mem_cons_self).fits,ofBe_be,
    Nat.mod_eq_of_lt (by unfold maxFrameSize at bound; omega)] at numbers
  exact numbers

theorem Synced.moreHeader (call : s.call = some (.header got)) (within : n ≤ s.socket.length)
    (less : got.length + n < 4) : Synced marshal unmarshal
      { s with socket := s.socket.drop n, call := some (.header (got ++ s.socket.take n)) } pending := by
  refine ⟨old.sent,?_,old.sendable,?_⟩
  · have octets := old.octets
    rw [State.held,call] at octets
    show got ++ s.socket.take n ++ s.socket.drop n ++ s.wire = octetsOf marshal pending
    rw [append_assoc,← split_socket s n got]
    exact octets
  · intro phase reading
    cases reading
    show (got ++ s.socket.take n).length < 4
    rw [taken_length within]
    exact less

theorem Synced.morePayload (call : s.call = some (.payload length got)) (within : n ≤ s.socket.length)
    (less : got.length + n < length) : Synced marshal unmarshal
      { s with socket := s.socket.drop n, call := some (.payload length (got ++ s.socket.take n)) } pending := by
  obtain ⟨msg,rest,rfl,rfl,left⟩ := old.payload call
  rw [split_socket s n] at left
  refine ⟨old.sent,?_,old.sendable,?_⟩
  · show be 4 (marshal msg).length ++ (got ++ s.socket.take n) ++ s.socket.drop n ++ s.wire = _
    rw [octetsOf_cons,← left]
    simp only [append_assoc]
  · intro phase reading
    cases reading
    refine ⟨?_,(old.short _ call).2⟩
    rw [taken_length within]
    exact less

theorem Synced.afterPayload (call : s.call = some (.payload length got)) (within : n ≤ s.socket.length)
    (all : got.length + n = length) : ∃ pending', Synced marshal unmarshal
      ({ s with socket := s.socket.drop n }.finish (Backchannel.decoded unmarshal (got ++ s.socket.take n))).1
        pending' := by
  obtain ⟨msg,rest,rfl,rfl,left⟩ := old.payload call
  rw [split_socket s n] at left
  obtain ⟨payload,after⟩ := append_inj left (by rw [taken_length within,all])
  rw [payload]
  exact ⟨rest,old.finish rfl rfl after⟩

theorem Synced.read (n : Nat) : ∃ pending', Synced marshal unmarshal (s.read unmarshal n).1 pending' := by
  unfold State.read
  split
  next => exact ⟨pending,old⟩
  next enough =>
    have within : n ≤ s.socket.length := Nat.not_lt.mp (not_or.mp enough).2
    simp only
    split
    next => exact ⟨pending,old⟩
    next got call =>
      split
      next => exact ⟨pending,old⟩
      next =>
        split
        next less => exact ⟨pending,old.moreHeader call within less⟩
        next => exact old.afterHeader call within (by omega)
    next length got call =>
      split
      next => exact ⟨pending,old⟩
      next =>
        split
        next less => exact ⟨pending,old.morePayload call within less⟩
        next => exact old.afterPayload call within (by omega)

theorem Synced.send (json : unmarshal (marshal msg) = some msg) :
    ∃ pending', Synced marshal unmarshal (step marshal unmarshal s (.send msg)).1 pending' := by
  simp only [step,writeFrame]
  by_cases typed : msg.type = ""
  · rw [if_pos typed]
    exact ⟨pending,old⟩
  · by_cases long : maxFrameSize < (marshal msg).length
    · rw [if_neg typed,if_pos long]
      exact ⟨pending,old⟩
    · rw [if_neg typed,if_neg long]
      refine ⟨pending ++ [msg],?_,?_,?_,old.short⟩
      · show s.sent ++ [msg] = s.returned ++ (pending ++ [msg])
        rw [old.sent,append_assoc]
      · show s.held ++ s.socket ++ (s.wire ++ frame (marshal msg)) = _
        rw [← append_assoc,old.octets]
        simp [octetsOf]
      · exact forall_mem_append.mpr ⟨old.sendable,forall_mem_singleton.mpr ⟨typed,Nat.not_lt.mp long,json⟩⟩

theorem Synced.step {e} (clean : Clean s e) (json : ∀ msg, e = .send msg → unmarshal (marshal msg) = some msg) :
    ∃ pending', Synced marshal unmarshal (Backchannel.step marshal unmarshal s e).1 pending' := by
  cases e with
  | send msg => exact old.send (json msg rfl)
  | arrive n =>
    refine ⟨pending,old.sent,?_,old.sendable,old.short⟩
    show s.held ++ (s.socket ++ s.wire.take n) ++ s.wire.drop n = _
    rw [← old.octets,append_assoc,append_assoc,append_assoc,take_append_drop]
  | recv =>
    simp only [Backchannel.step]
    split
    next none =>
      have octets := old.octets
      rw [State.held,none] at octets
      refine ⟨pending,old.sent,octets,old.sendable,?_⟩
      intro phase reading
      cases reading
      exact Nat.zero_lt_succ 3
    next => exact ⟨pending,old⟩
  | read n => exact old.read n
  | expire =>
    have nothing : s.held = [] := clean
    simp only [Backchannel.step]
    split
    next => exact ⟨pending,old⟩
    next =>
      refine ⟨pending,?_,?_,old.sendable,?_⟩
      · show s.sent = s.returned ++ [] ++ pending
        rw [append_nil,old.sent]
      · show [] ++ s.socket ++ s.wire = _
        rw [← old.octets,nothing]
      · intro phase none
        cases none

end

theorem synced_start : Synced marshal unmarshal start [] := by
  refine ⟨rfl,rfl,?_,?_⟩
  · intro msg none
    cases none
  · intro phase none
    cases none

theorem synced_run {events} (clean : Along (step marshal unmarshal) Clean start events)
    (json : ∀ msg, .send msg ∈ events → unmarshal (marshal msg) = some msg) :
    ∃ pending, Synced marshal unmarshal (final (step marshal unmarshal) start events) pending := by
  have each : ∀ e ∈ events, ∀ msg, e = .send msg → unmarshal (marshal msg) = some msg := by
    rintro e mem msg rfl
    exact json msg mem
  refine final_invariant (I := fun s => ∃ pending, Synced marshal unmarshal s pending) ?_ ⟨[],synced_start⟩
    (along_and_iff.mpr ⟨clean,along_of_forall each⟩)
  rintro s e ⟨pending,old⟩ ⟨fine,back⟩
  exact old.step fine back

theorem not_lossless_of_expire (unmarshal : Bytes → Option Message) (lossless : Lossless marshal s) (inside : s.held ≠ []) :
    ¬ Lossless marshal (step marshal unmarshal s .expire).1 := by
  have reading : s.call ≠ none := by
    intro none
    rw [State.held,none] at inside
    exact inside rfl
  simp only [step,if_neg reading]
  rintro ⟨pending,sent,octets⟩
  obtain ⟨before,whole,all⟩ := lossless
  have shape : s.sent = s.returned ++ [] ++ pending := sent
  rw [append_nil,whole] at shape
  rw [append_cancel_left shape] at all
  have left : [] ++ s.socket ++ s.wire = octetsOf marshal pending := octets
  rw [← all,nil_append,append_assoc] at left
  exact inside (append_left_eq_self.mp left.symm)

end

/-- In every state of a run nothing is lost just when no deadline passes inside a frame, where JSON gives back the
    messages that are sent. -/
theorem recv_lossless_iff (marshal : Message → Bytes) (unmarshal : Bytes → Option Message) (events : List Event)
    (json : ∀ msg, .send msg ∈ events → unmarshal (marshal msg) = some msg) :
    (∀ before after, events = before ++ after → Lossless marshal (final (step marshal unmarshal) start before)) ↔
      Along (step marshal unmarshal) Clean start events := by
  constructor
  · intro lossless
    rw [along_iff_split]
    rintro first e last split
    cases e with
    | expire =>
      by_contra inside
      refine not_lossless_of_expire unmarshal (lossless first (.expire :: last) split) inside ?_
      have next := lossless (first ++ [.expire]) last (by rw [split]; simp)
      rwa [final_append] at next
    | send msg => trivial
    | arrive n => trivial
    | recv => trivial
    | read n => trivial
  · rintro along before after rfl
    have clean := ((along_append _ _ _ _ _).mp along).1
    obtain ⟨pending,synced⟩ := synced_run clean (fun msg mem => json msg (mem_append_left after mem))
    exact ⟨pending,synced.sent,synced.octets⟩

def hello : Message := ⟨"pair_begin","","","",""⟩
def oneMessage (_ : Message) : Bytes := [7]
def onlyHello (_ : Bytes) : Option Message := some hello

def expiredEarly : List Event := [.send hello,.recv,.expire,.arrive 5,.recv,.read 4,.read 1]

theorem early_deadline_loses_nothing : (final (step oneMessage onlyHello) start expiredEarly).returned = [hello] ∧
      Along (step oneMessage onlyHello) Clean start expiredEarly ∧
      ((∀ before after, expiredEarly = before ++ after →
          Lossless oneMessage (final (step oneMessage onlyHello) start before)) ↔
        Along (step oneMessage onlyHello) Clean start expiredEarly) := by
  refine ⟨by decide,?_,recv_lossless_iff oneMessage onlyHello expiredEarly ?_⟩
  · simp [expiredEarly,Clean]
    decide
  · intro msg mem
    have same : msg = hello := by simpa [expiredEarly] using mem
    rw [same]
    rfl

def expiredInside : List Event :=
  [.send hello,.arrive 5,.recv,.read 2,.expire,.send hello,.arrive 5,.recv,.read 4]

theorem deadline_inside_frame_loses : (final (step oneMessage onlyHello) start expiredInside).sent = [hello,hello] ∧
      (final (step oneMessage onlyHello) start expiredInside).returned = [] ∧
      answers (step oneMessage onlyHello) start expiredInside =
        [none,none,none,none,some (.error .deadlineExceeded),none,none,none,some (.error .oversize)] ∧
      ¬ Lossless oneMessage (final (step oneMessage onlyHello) start (expiredInside.take 5)) := by
  refine ⟨by decide,by decide,by decide,?_⟩
  have before : Lossless oneMessage (final (step oneMessage onlyHello) start (expiredInside.take 4)) :=
    ⟨[hello],by decide,by decide⟩
  exact not_lossless_of_expire onlyHello before (by decide)

end Pigeon.Backchannel
